import RelayPoint.Data.Wire

/-!
# Protobuf — reading a message by field number

A message on the wire is a list of entries, each a field number with a value.  `encode` writes
entries and `fromBinary` reads them: a field that the schema knows is read as the schema says, any
other is skipped by its wire type.  `fromBinary_encode` says that reading returns the entries the
schema knows, in the order they were written in.
-/

namespace RelayPoint.Protobuf

open Wire

/-! ## Pieces of a reader -/

def readVarint : Nat → Bytes → Option (Nat × Bytes)
  | 0, _ | _ + 1, [] => none
  | k + 1, b :: rest =>
    if b.toNat < 128 then some (b.toNat, rest)
    else (readVarint k rest).map fun p => (b.toNat - 128 + 128 * p.1, p.2)

def readTag (b : Bytes) : Option ((Nat × Nat) × Bytes) :=
  (readVarint 10 b).bind fun p =>
    let t := p.1 % 2 ^ 32
    if t / 8 = 0 ∨ 5 < t % 8 then none else some ((t / 8, t % 8), p.2)

def readBytes (b : Bytes) : Option (Bytes × Bytes) :=
  (readVarint 10 b).bind fun p =>
    let n := p.1 % 2 ^ 32
    if p.2.length < n then none else some (p.2.take n, p.2.drop n)

def skipVarint : Bytes → Option Bytes
  | [] => none
  | b :: rest => if b.toNat < 128 then some rest else skipVarint rest

def skipBytes (n : Nat) (b : Bytes) : Option Bytes :=
  if b.length < n then none else some (b.drop n)

def skipValue : Nat → Bytes → Option Bytes
  | 0, b => skipVarint b
  | 1, b => skipBytes 8 b
  | 2, b => (readBytes b).map Prod.snd
  | 5, b => skipBytes 4 b
  | _, _ => none

/-- The rest of the open groups, the innermost first.  A group ends with the tag of its own field. -/
def skipGroups : Nat → List Nat → Bytes → Option Bytes
  | _, [], b => some b
  | 0, _ :: _, _ => none
  | n + 1, k :: outer, b =>
    (readTag b).bind fun p =>
      match p.1.2 with
      | 3 => skipGroups n (p.1.1 :: k :: outer) p.2
      | 4 => if p.1.1 = k then skipGroups n outer p.2 else none
      | wireType => (skipValue wireType p.2).bind (skipGroups n (k :: outer))

/-- The value of a field that the schema does not know.  Each tag in a group takes a byte or more, so
there are no more tags than bytes. -/
def skip (k wireType : Nat) (b : Bytes) : Option Bytes :=
  if wireType = 3 then skipGroups b.length [k] b else skipValue wireType b

/-! ## Messages -/

inductive Kind where
  | varint
  | bytes
  | text
deriving DecidableEq, Repr

inductive Value where
  | varint (n : Nat)
  | bytes (b : Bytes)
  | text (s : String)
deriving DecidableEq, Repr

def Value.kind : Value → Kind
  | .varint _ => .varint
  | .bytes _ => .bytes
  | .text _ => .text

abbrev Schema := Nat → Option Kind

abbrev Entry := Nat × Value

def textBytes (s : String) : Bytes :=
  s.toUTF8.data.toList

structure TextDecoder where
  decode : Bytes → Option String
  decode_textBytes : ∀ s, decode (textBytes s) = some s

def TextDecoder.strict : TextDecoder where
  decode b := String.fromUTF8? ⟨b.toArray⟩
  decode_textBytes s := dif_pos s.isValidUTF8

def Kind.read (td : TextDecoder) : Kind → Bytes → Option (Value × Bytes)
  | .varint, b => (readVarint 10 b).map fun p => (.varint (p.1 % 2 ^ 64), p.2)
  | .bytes, b => (readBytes b).map fun p => (.bytes p.1, p.2)
  | .text, b => (readBytes b).bind fun p => (td.decode p.1).map fun s => (.text s, p.2)

section Read

variable (td : TextDecoder) (schema : Schema)

def readField (b : Bytes) : Option (List Entry × Bytes) :=
  (readTag b).bind fun p =>
    match schema p.1.1 with
    | some kind => (kind.read td p.2).map fun v => ([(p.1.1, v.1)], v.2)
    | none => (skip p.1.1 p.1.2 p.2).map fun rest => ([], rest)

def readFields : Nat → Bytes → Option (List Entry)
  | _, [] => some []
  | 0, _ :: _ => none
  | n + 1, b :: bs => (readField td schema (b :: bs)).bind fun p => (readFields n p.2).map (p.1 ++ ·)

def fromBinary (b : Bytes) : Option (List Entry) :=
  readFields td schema b.length b

end Read

def Value.encode : Value → Bytes
  | .varint n => Wire.varint n
  | .bytes b => Wire.varint b.length ++ b
  | .text s => Wire.varint (textBytes s).length ++ textBytes s

def Value.wireType : Value → Nat
  | .varint _ => 0
  | .bytes _ | .text _ => 2

def encodeEntry (e : Entry) : Bytes :=
  Wire.varint (8 * e.1 + e.2.wireType) ++ e.2.encode

def encode (es : List Entry) : Bytes :=
  es.flatMap encodeEntry

/-! ## What is written is read back -/

theorem toNat_group {n : Nat} (h : n < 256) : (UInt8.ofNat n).toNat = n :=
  UInt8.toNat_ofNat_of_lt' h

theorem div_lt_pow {n i : Nat} (h : n < 128 ^ (i + 1)) (hn : ¬ n < 128) : n / 128 < 128 ^ i ∧ 0 < i := by
  cases i with
  | zero => exact absurd (by simpa using h) hn
  | succ i => exact ⟨Nat.div_lt_of_lt_mul (by rw [Nat.mul_comm]; exact h), i.succ_pos⟩

theorem readVarint_groups {j : Nat} : ∀ {k n : Nat} {r : Bytes}, n < 128 ^ j → n < 128 ^ k →
    0 < j → 0 < k → readVarint j (groups k n ++ r) = some (n, r) := by
  induction j with
  | zero =>
    intro k n r _ _ hj
    exact absurd hj (Nat.lt_irrefl 0)
  | succ j ih =>
    intro k n r hj hk _ hkpos
    obtain ⟨k, rfl⟩ := Nat.exists_eq_succ_of_ne_zero hkpos.ne'
    by_cases hn : n < 128
    · rw [groups, if_pos hn, List.singleton_append, readVarint, toNat_group (by omega), if_pos hn]
    · rcases div_lt_pow hj hn with ⟨hj, hjpos⟩
      rcases div_lt_pow hk hn with ⟨hk, hkpos⟩
      have hlow : n % 128 + 128 - 128 + 128 * (n / 128) = n := by omega
      rw [groups, if_neg hn, List.cons_append, readVarint, toNat_group (by omega), if_neg (by omega),
        ih hj hk hjpos hkpos, Option.map_some, hlow]

theorem readVarint_varint {n : Nat} (hn : n < 2 ^ 64) (r : Bytes) :
    readVarint 10 (Wire.varint n ++ r) = some (n, r) :=
  readVarint_groups (hn.trans (by decide)) ((Nat.lt_succ_self n).trans (Nat.lt_pow_self (by decide)))
    (by decide) n.succ_pos

theorem skipVarint_groups {k : Nat} : ∀ {n : Nat} {r : Bytes}, n < 128 ^ k → 0 < k →
    skipVarint (groups k n ++ r) = some r := by
  induction k with
  | zero =>
    intro n r _ hk
    exact absurd hk (Nat.lt_irrefl 0)
  | succ k ih =>
    intro n r hk _
    by_cases hn : n < 128
    · rw [groups, if_pos hn, List.singleton_append, skipVarint, toNat_group (by omega), if_pos hn]
    · rcases div_lt_pow hk hn with ⟨hk, hkpos⟩
      rw [groups, if_neg hn, List.cons_append, skipVarint, toNat_group (by omega), if_neg (by omega),
        ih hk hkpos]

theorem skipVarint_varint (n : Nat) (r : Bytes) : skipVarint (Wire.varint n ++ r) = some r :=
  skipVarint_groups ((Nat.lt_succ_self n).trans (Nat.lt_pow_self (by decide))) n.succ_pos

theorem readTag_varint {k wireType : Nat} (hk : 0 < k ∧ k < 2 ^ 29) (hw : wireType ≤ 5) (r : Bytes) :
    readTag (Wire.varint (8 * k + wireType) ++ r) = some ((k, wireType), r) := by
  have hmod : (8 * k + wireType) % 2 ^ 32 = 8 * k + wireType := Nat.mod_eq_of_lt (by omega)
  have hfield : (8 * k + wireType) / 8 = k := by omega
  have htype : (8 * k + wireType) % 8 = wireType := by omega
  simp only [readTag, readVarint_varint (show 8 * k + wireType < 2 ^ 64 by omega), Option.bind_some,
    hmod, hfield, htype]
  exact if_neg (by omega)

theorem readBytes_append {b : Bytes} (hb : b.length < 2 ^ 32) (r : Bytes) :
    readBytes (Wire.varint b.length ++ (b ++ r)) = some (b, r) := by
  have hmod : b.length % 2 ^ 32 = b.length := Nat.mod_eq_of_lt hb
  simp only [readBytes, readVarint_varint (show b.length < 2 ^ 64 by omega), Option.bind_some, hmod]
  simp

def Value.Sized : Value → Prop
  | .varint n => n < 2 ^ 64
  | .bytes b => b.length < 2 ^ 32
  | .text s => (textBytes s).length < 2 ^ 32

structure Fits (schema : Schema) (e : Entry) : Prop where
  field : 0 < e.1 ∧ e.1 < 2 ^ 29
  varint : ∀ n, e.2 = .varint n → n < 2 ^ 64
  kind : (schema e.1).getD e.2.kind = e.2.kind

def AllFit (schema : Schema) (es : List Entry) : Prop :=
  ∀ e ∈ es, Fits schema e

theorem read_encode (td : TextDecoder) {v : Value} (hv : v.Sized) (r : Bytes) :
    v.kind.read td (v.encode ++ r) = some (v, r) := by
  cases v with
  | varint n =>
    have hmod : n % 2 ^ 64 = n := Nat.mod_eq_of_lt hv
    simp only [Value.kind, Value.encode, Kind.read, readVarint_varint hv, Option.map_some, hmod]
  | bytes b => simp [Value.kind, Value.encode, Kind.read, readBytes_append hv]
  | text s => simp [Value.kind, Value.encode, Kind.read, readBytes_append hv, td.decode_textBytes]

theorem skip_encode {v : Value} (hv : v.Sized) (k : Nat) (r : Bytes) :
    skip k v.wireType (v.encode ++ r) = some r := by
  cases v with
  | varint n => simp [skip, Value.wireType, Value.encode, skipValue, skipVarint_varint]
  | bytes b | text s => simp [skip, Value.wireType, Value.encode, skipValue, readBytes_append hv]

section RoundTrip

variable (td : TextDecoder) {schema : Schema}

def known (schema : Schema) (es : List Entry) : List Entry :=
  es.filter fun e => (schema e.1).isSome

theorem readField_encodeEntry {e : Entry} (h : Fits schema e) (hsized : e.2.Sized) (r : Bytes) :
    readField td schema (encodeEntry e ++ r) = some (known schema [e], r) := by
  have htype : e.2.wireType ≤ 5 := by
    cases e.2 with
    | varint => exact Nat.zero_le 5
    | bytes | text => exact (by decide : 2 ≤ 5)
  simp only [readField, encodeEntry, List.append_assoc, readTag_varint h.field htype]
  cases hkind : schema e.1 with
  | none => simp [skip_encode hsized, known, hkind]
  | some kind =>
    have hsame : kind = e.2.kind := by simpa [hkind] using h.kind
    simp [hsame, read_encode td hsized, known, hkind]

theorem encodeEntry_ne_nil (e : Entry) : encodeEntry e ≠ [] := by
  have hgroups : ∀ k n, groups (k + 1) n ≠ [] := by
    intro k n
    unfold groups
    split
    all_goals exact List.cons_ne_nil _ _
  exact List.append_ne_nil_of_left_ne_nil (hgroups _ _) _

theorem length_le_encode (es : List Entry) : es.length ≤ (encode es).length := by
  induction es with
  | nil => exact Nat.zero_le _
  | cons e es ih =>
    have hpos := List.length_pos_of_ne_nil (encodeEntry_ne_nil e)
    simp only [encode, List.flatMap_cons, List.length_append, List.length_cons] at ih ⊢
    omega

theorem readFields_encode {es : List Entry} (h : ∀ e ∈ es, Fits schema e ∧ e.2.Sized) :
    ∀ {n : Nat}, es.length ≤ n → readFields td schema n (encode es) = some (known schema es) := by
  induction es with
  | nil =>
    intro n _
    cases n with
    | zero | succ n => rfl
  | cons e es ih =>
    intro n hn
    obtain ⟨n, rfl⟩ := Nat.exists_eq_succ_of_ne_zero (Nat.ne_of_gt (Nat.lt_of_lt_of_le (Nat.succ_pos _) hn))
    have hrest := ih (fun e' he' => h e' (List.mem_cons_of_mem e he')) (Nat.le_of_succ_le_succ hn)
    rcases h e List.mem_cons_self with ⟨hfits, hsized⟩
    have hfield := readField_encodeEntry td hfits hsized (encode es)
    -- the bytes are not empty, so a field is read
    obtain ⟨b, bs, hbytes⟩ := List.exists_cons_of_ne_nil
      (List.append_ne_nil_of_left_ne_nil (encodeEntry_ne_nil e) (encode es))
    have hencode : encode (e :: es) = b :: bs := by rw [← hbytes]; rfl
    rw [hencode, readFields, ← hbytes, hfield]
    simp only [Option.bind_some, hrest, Option.map_some, known, ← List.filter_append,
      List.singleton_append]

theorem Fits.sized {es : List Entry} {e : Entry} (h : Fits schema e) (he : e ∈ es)
    (hlen : (encode es).length < 2 ^ 32) : e.2.Sized := by
  obtain ⟨before, after, rfl⟩ := List.append_of_mem he
  simp only [encode, encodeEntry, List.flatMap_append, List.flatMap_cons] at hlen
  rcases e with ⟨k, v⟩
  cases v with
  | varint n => exact h.varint n rfl
  | bytes b =>
    simp only [Value.encode, List.length_append] at hlen
    change b.length < 2 ^ 32
    omega
  | text s =>
    simp only [Value.encode, List.length_append] at hlen
    change (textBytes s).length < 2 ^ 32
    omega

theorem fromBinary_encode {es : List Entry} (h : AllFit schema es)
    (hlen : (encode es).length < 2 ^ 32) : fromBinary td schema (encode es) = some (known schema es) :=
  readFields_encode td (fun e he => ⟨h e he, (h e he).sized he hlen⟩) (length_le_encode es)

end RoundTrip

/-! ## Fields -/

def Value.text? : Value → Option String
  | .text s => some s
  | .varint _ | .bytes _ => none

def Value.bytes? : Value → Option Bytes
  | .bytes b => some b
  | .varint _ | .text _ => none

def Value.varint? : Value → Option Nat
  | .varint n => some n
  | .bytes _ | .text _ => none

def valuesAt {α : Type} (f : Value → Option α) (k : Nat) (es : List Entry) : List α :=
  es.filterMap fun e => if e.1 = k then f e.2 else none

def textAt (k : Nat) (es : List Entry) : String :=
  (valuesAt Value.text? k es).getLast?.getD ""

def bytesAt (k : Nat) (es : List Entry) : Bytes :=
  (valuesAt Value.bytes? k es).getLast?.getD []

def varintAt (k : Nat) (es : List Entry) : Nat :=
  (valuesAt Value.varint? k es).getLast?.getD 0

def textEntry (k : Nat) (s : String) : List Entry :=
  if s = "" then [] else [(k, .text s)]

def bytesEntry (k : Nat) (b : Bytes) : List Entry :=
  if b = [] then [] else [(k, .bytes b)]

def varintEntry (k n : Nat) : List Entry :=
  if n = 0 then [] else [(k, .varint n)]

def messageEntry (k : Nat) (es : List Entry) : List Entry :=
  [(k, .bytes (encode es))]

section Fields

variable {α : Type} {f : Value → Option α} {j k : Nat}

@[simp] theorem valuesAt_append (es es' : List Entry) :
    valuesAt f k (es ++ es') = valuesAt f k es ++ valuesAt f k es' :=
  List.filterMap_append

theorem valuesAt_known {schema : Schema} (hk : (schema k).isSome = true) (es : List Entry) :
    valuesAt f k (known schema es) = valuesAt f k es := by
  unfold valuesAt known
  rw [List.filterMap_filter]
  refine List.filterMap_congr fun e _ => ?_
  by_cases he : e.1 = k
  · simp [he, hk]
  · simp [he]

theorem valuesAt_textEntry_ne (h : j ≠ k) (s : String) : valuesAt f k (textEntry j s) = [] := by
  unfold textEntry
  split
  · rfl
  · simp [valuesAt, h]

theorem valuesAt_bytesEntry_ne (h : j ≠ k) (b : Bytes) : valuesAt f k (bytesEntry j b) = [] := by
  unfold bytesEntry
  split
  · rfl
  · simp [valuesAt, h]

theorem valuesAt_varintEntry_ne (h : j ≠ k) (n : Nat) : valuesAt f k (varintEntry j n) = [] := by
  unfold varintEntry
  split
  · rfl
  · simp [valuesAt, h]

theorem valuesAt_messageEntry_ne (h : j ≠ k) (es : List Entry) :
    valuesAt f k (messageEntry j es) = [] := by
  simp [valuesAt, messageEntry, h]

@[simp] theorem getD_textEntry (k : Nat) (s : String) :
    (valuesAt Value.text? k (textEntry k s)).getLast?.getD "" = s := by
  by_cases hs : s = ""
  · simp [textEntry, hs, valuesAt]
  · simp [textEntry, hs, valuesAt, Value.text?]

@[simp] theorem getD_bytesEntry (k : Nat) (b : Bytes) :
    (valuesAt Value.bytes? k (bytesEntry k b)).getLast?.getD [] = b := by
  by_cases hb : b = []
  · simp [bytesEntry, hb, valuesAt]
  · simp [bytesEntry, hb, valuesAt, Value.bytes?]

@[simp] theorem getD_varintEntry (k n : Nat) :
    (valuesAt Value.varint? k (varintEntry k n)).getLast?.getD 0 = n := by
  by_cases hn : n = 0
  · simp [varintEntry, hn, valuesAt]
  · simp [varintEntry, hn, valuesAt, Value.varint?]

@[simp] theorem valuesAt_messageEntry (k : Nat) (es : List Entry) :
    valuesAt Value.bytes? k (messageEntry k es) = [encode es] := by
  simp [messageEntry, valuesAt, Value.bytes?]

/-! Whether the entry of a field fits a schema depends on its number and kind. -/

variable {schema : Schema}

@[simp] theorem allFit_append {es es' : List Entry} :
    AllFit schema (es ++ es') ↔ AllFit schema es ∧ AllFit schema es' :=
  List.forall_mem_append

theorem allFit_textEntry (hk : 0 < k ∧ k < 2 ^ 29) (hkind : (schema k).getD .text = .text) (s : String) :
    AllFit schema (textEntry k s) := by
  unfold textEntry
  split
  · exact List.forall_mem_nil _
  · exact List.forall_mem_singleton.2 ⟨hk, by simp, hkind⟩

theorem allFit_bytesEntry (hk : 0 < k ∧ k < 2 ^ 29) (hkind : (schema k).getD .bytes = .bytes) (b : Bytes) :
    AllFit schema (bytesEntry k b) := by
  unfold bytesEntry
  split
  · exact List.forall_mem_nil _
  · exact List.forall_mem_singleton.2 ⟨hk, by simp, hkind⟩

theorem allFit_varintEntry {n : Nat} (hk : 0 < k ∧ k < 2 ^ 29) (hkind : (schema k).getD .varint = .varint)
    (hn : n < 2 ^ 64) : AllFit schema (varintEntry k n) := by
  unfold varintEntry
  split
  · exact List.forall_mem_nil _
  · exact List.forall_mem_singleton.2 ⟨hk, fun _ h => by cases h; exact hn, hkind⟩

theorem allFit_messageEntry (hk : 0 < k ∧ k < 2 ^ 29) (hkind : (schema k).getD .bytes = .bytes)
    (es : List Entry) : AllFit schema (messageEntry k es) :=
  List.forall_mem_singleton.2 ⟨hk, by simp, hkind⟩

end Fields

/-! ## Fields on the wire

Below field 16 an entry is written as the field of `Wire` with its number and value. -/

section Wire

variable {k : Nat}

theorem encode_append (es es' : List Entry) : encode (es ++ es') = encode es ++ encode es' :=
  List.flatMap_append

theorem varint_tag {wireType : Nat} (hk : k < 16) (hw : wireType < 8) :
    Wire.varint (8 * k + wireType) = [tag k wireType] := by
  have hsmall : 8 * k + wireType < 128 := by omega
  simp [Wire.varint, groups, tag, hsmall]

theorem encode_textEntry (hk : k < 16) (s : String) : encode (textEntry k s) = bytesField k (textBytes s) := by
  by_cases hs : s = ""
  · subst hs
    rfl
  · have hne : textBytes s ≠ [] := by
      intro hnil
      exact hs (Option.some.inj
        ((TextDecoder.strict.decode_textBytes s).symm.trans (hnil ▸ TextDecoder.strict.decode_textBytes "")))
    simp [textEntry, hs, encode, encodeEntry, Value.wireType, Value.encode, varint_tag hk, bytesField, hne,
      messageField]

theorem encode_varintEntry (hk : k < 16) (n : Nat) : encode (varintEntry k n) = uintField k n := by
  have htag : Wire.varint (8 * k + 0) = [tag k 0] := varint_tag hk (by omega)
  by_cases hn : n = 0
  · simp [varintEntry, hn, encode, uintField]
  · simp only [Nat.add_zero] at htag
    simp [varintEntry, hn, encode, encodeEntry, Value.wireType, Value.encode, htag, uintField]

theorem encode_messageEntry (hk : k < 16) (es : List Entry) :
    encode (messageEntry k es) = messageField k (encode es) := by
  simp [messageEntry, encode, encodeEntry, Value.wireType, Value.encode, varint_tag hk, messageField]

end Wire

/-! ## Lengths -/

theorem length_groups (j : Nat) : ∀ {k n : Nat}, n < 128 ^ (j + 1) → (groups k n).length ≤ j + 1 := by
  induction j with
  | zero =>
    intro k n hn
    cases k with
    | zero => simp [groups]
    | succ k => simp [groups, show n < 128 by simpa using hn]
  | succ j ih =>
    intro k n hn
    cases k with
    | zero => simp [groups]
    | succ k =>
      by_cases hsmall : n < 128
      · simp [groups, hsmall]
      · have hrest := ih (k := k) (div_lt_pow hn hsmall).1
        simpa [groups, hsmall] using hrest

theorem length_varint {n : Nat} (hn : n < 2 ^ 64) : (Wire.varint n).length ≤ 10 :=
  length_groups 9 (lt_of_lt_of_le hn (by norm_num))

theorem textBytes_eq_flatMap (s : String) : textBytes s = s.toList.flatMap String.utf8EncodeChar := by
  have hbytes : s.toByteArray = s.toList.utf8Encode := by
    rw [← String.toByteArray_ofList, String.ofList_toList]
  simp only [textBytes, String.toUTF8_eq_toByteArray, hbytes, List.utf8Encode, List.data_toByteArray]

theorem length_flatMap_utf8 (cs : List Char) : (cs.flatMap String.utf8EncodeChar).length ≤ 4 * cs.length := by
  induction cs with
  | nil => exact le_rfl
  | cons c cs ih =>
    have hc := Char.utf8Size_le_four c
    simp only [List.flatMap_cons, List.length_append, String.length_utf8EncodeChar, List.length_cons]
    omega

theorem length_textBytes (s : String) : (textBytes s).length ≤ 4 * s.toList.length := by
  rw [textBytes_eq_flatMap]
  exact length_flatMap_utf8 s.toList

/-! ## Signed numbers -/

def int64 (n : Nat) : Int :=
  if n < 2 ^ 63 then n else n - 2 ^ 64

def int32 (n : Nat) : Int :=
  if n % 2 ^ 32 < 2 ^ 31 then (n % 2 ^ 32 : Nat) else (n % 2 ^ 32 : Nat) - 2 ^ 32

theorem twosComplement_lt (n : Int) : twosComplement n < 2 ^ 64 := by
  unfold twosComplement
  omega

theorem int64_twosComplement {n : Int} (h : -2 ^ 63 ≤ n ∧ n < 2 ^ 63) : int64 (twosComplement n) = n := by
  unfold int64 twosComplement
  split
  · omega
  · omega

theorem int32_twosComplement {n : Int} (h : -2 ^ 31 ≤ n ∧ n < 2 ^ 31) : int32 (twosComplement n) = n := by
  unfold int32 twosComplement
  split
  · omega
  · omega

end RelayPoint.Protobuf
