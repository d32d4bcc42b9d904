import Mathlib.Algebra.Order.Ring.Nat

/-!
# A wire format of fields

A message is a list of fields, each a number that says which field it is, with a natural number or a
string of bytes. Numbers are written as varints: seven bits a byte, lowest first, every byte but the last
with its high bit set. A field is a varint of its number and its kind, and then its value. Where a field
is there twice, the last one counts.
-/

namespace Wire

/-- What a message is written as. -/
abbrev Bytes := List UInt8

/-! ## Varints -/

/-- A number as bytes. -/
def encodeVarint (n : ℕ) : Bytes :=
  if n < 128 then [n.toUInt8] else (n % 128 + 128).toUInt8 :: encodeVarint (n / 128)
termination_by n
decreasing_by omega

/-- The number at the start, and what follows it. -/
def decodeVarint : Bytes → Option (ℕ × Bytes)
  | [] => none
  | b :: rest =>
    if b.toNat < 128 then some (b.toNat, rest)
    else (decodeVarint rest).map fun (n, rest) => (b.toNat - 128 + 128 * n, rest)

/-- A byte holds a number below 256. -/
theorem toNat_toUInt8 {n : ℕ} (h : n < 256) : n.toUInt8.toNat = n := UInt8.toNat_ofNat_of_lt' h

/-- A number is read back, and what follows it is left. -/
theorem decodeVarint_encodeVarint (n : ℕ) (rest : Bytes) :
    decodeVarint (encodeVarint n ++ rest) = some (n, rest) := by
  induction n using Nat.strongRecOn with
  | ind n ih =>
    rw [encodeVarint]
    split_ifs with hsmall
    · have hbyte : n.toUInt8.toNat = n := toNat_toUInt8 (by omega)
      rw [List.singleton_append, decodeVarint, hbyte, if_pos hsmall]
    · have hbyte : (n % 128 + 128).toUInt8.toNat = n % 128 + 128 := toNat_toUInt8 (by omega)
      have hvalue : n % 128 + 128 - 128 + 128 * (n / 128) = n := by omega
      rw [List.cons_append, decodeVarint, hbyte, if_neg (by omega), ih (n / 128) (by omega),
        Option.map_some]
      exact congrArg (fun m => some (m, rest)) hvalue

/-- A number takes at least a byte. -/
theorem encodeVarint_ne_nil (n : ℕ) : encodeVarint n ≠ [] := by
  rw [encodeVarint]
  split_ifs <;> exact List.cons_ne_nil _ _

/-- Seven bits a byte. -/
theorem length_encodeVarint (k n : ℕ) (h : n < 128 ^ (k + 1)) : (encodeVarint n).length ≤ k + 1 := by
  induction k generalizing n with
  | zero =>
    rw [encodeVarint, if_pos (by omega)]
    exact le_rfl
  | succ k ih =>
    rw [encodeVarint]
    split_ifs
    · exact Nat.succ_le_succ (Nat.zero_le _)
    · have hrest : n / 128 < 128 ^ (k + 1) := by
        rw [pow_succ] at h
        exact Nat.div_lt_of_lt_mul (by omega)
      exact Nat.succ_le_succ (ih (n / 128) hrest)

/-- A value of 64 bits takes ten bytes at most. -/
theorem length_encodeVarint_le {n : ℕ} (h : n < 2 ^ 64) : (encodeVarint n).length ≤ 10 :=
  length_encodeVarint 9 n (h.trans (by decide))

/-! ## Fields -/

/-- What a field holds. -/
inductive Value where
  /-- A varint. -/
  | number (n : ℕ)
  /-- Bytes with their length. -/
  | bytes (bytes : Bytes)
deriving DecidableEq, Repr

/-- The number of a field, and its value. -/
abbrev Field := ℕ × Value

/-- A field as bytes: its key, the length of a string, and the value. -/
def encodeField : Field → Bytes
  | (key, .number n) => encodeVarint (8 * key) ++ encodeVarint n
  | (key, .bytes bytes) => encodeVarint (8 * key + 2) ++ (encodeVarint bytes.length ++ bytes)

/-- The field at the start, and what follows it. Fields of other kinds are not read. -/
def decodeField (input : Bytes) : Option (Field × Bytes) :=
  match decodeVarint input with
  | none => none
  | some (tag, rest) =>
    match decodeVarint rest with
    | none => none
    | some (n, rest) =>
      if tag % 8 = 0 then some ((tag / 8, .number n), rest)
      else if tag % 8 = 2 ∧ n ≤ rest.length then some ((tag / 8, .bytes (rest.take n)), rest.drop n)
      else none

/-- A field is read back, and what follows it is left. -/
theorem decodeField_encodeField (field : Field) (rest : Bytes) :
    decodeField (encodeField field ++ rest) = some (field, rest) := by
  obtain ⟨key, value⟩ := field
  cases value with
  | number n =>
    have hkey : 8 * key % 8 = 0 ∧ 8 * key / 8 = key := by omega
    simp only [decodeField, encodeField, List.append_assoc, decodeVarint_encodeVarint, hkey, if_true]
  | bytes bytes =>
    have hkey : (8 * key + 2) % 8 = 2 ∧ (8 * key + 2) / 8 = key := by omega
    have hlength : bytes.length ≤ (bytes ++ rest).length := by simp
    simp only [decodeField, encodeField, List.append_assoc, decodeVarint_encodeVarint, hkey, hlength,
      List.take_left', List.drop_left', and_self, if_true]
    rfl

/-- A message as bytes, field by field. -/
def encode (fields : List Field) : Bytes := fields.flatMap encodeField

/-- The fields of a message, with a bound on their number. -/
def decodeUpTo : ℕ → Bytes → Option (List Field)
  | _, [] => some []
  | 0, _ :: _ => none
  | fuel + 1, b :: input =>
    match decodeField (b :: input) with
    | none => none
    | some (field, rest) => (decodeUpTo fuel rest).map (field :: ·)

/-- All fields of a message, if it is well formed. -/
def decode (input : Bytes) : Option (List Field) := decodeUpTo input.length input

/-- A field takes at least a byte. -/
theorem encodeField_ne_nil (field : Field) : encodeField field ≠ [] := by
  obtain ⟨key, value⟩ := field
  cases value with
  | number n => exact List.append_ne_nil_of_left_ne_nil (encodeVarint_ne_nil _) _
  | bytes bytes => exact List.append_ne_nil_of_left_ne_nil (encodeVarint_ne_nil _) _

/-- With fuel for each field, all fields are read back. -/
theorem decodeUpTo_encode (fields : List Field) (fuel : ℕ) (h : fields.length ≤ fuel) :
    decodeUpTo fuel (encode fields) = some fields := by
  induction fields generalizing fuel with
  | nil =>
    unfold encode
    rw [List.flatMap_nil, decodeUpTo]
  | cons field fields ih =>
    obtain ⟨fuel, rfl⟩ : ∃ n, fuel = n + 1 := Nat.exists_eq_add_one.mpr (by
      rw [List.length_cons] at h
      omega)
    have hrest := ih fuel (Nat.le_of_succ_le_succ h)
    obtain ⟨b, input, hinput⟩ := List.exists_cons_of_ne_nil (encodeField_ne_nil field)
    have hfield := decodeField_encodeField field (encode fields)
    have hwhole : encode (field :: fields) = b :: (input ++ encode fields) := by
      unfold encode
      rw [List.flatMap_cons, hinput, List.cons_append]
    rw [hinput, List.cons_append] at hfield
    simp only [hwhole, decodeUpTo, hfield, hrest, Option.map_some]

/-- A field takes a byte at least. -/
theorem length_le_encode (fields : List Field) : fields.length ≤ (encode fields).length := by
  induction fields with
  | nil => exact Nat.zero_le _
  | cons field fields ih =>
    have hpos := List.length_pos_iff.mpr (encodeField_ne_nil field)
    unfold encode at ih ⊢
    rw [List.flatMap_cons, List.length_append, List.length_cons]
    omega

/-- A message is read back from its bytes. -/
theorem decode_encode (fields : List Field) : decode (encode fields) = some fields :=
  decodeUpTo_encode fields _ (length_le_encode fields)

/-- Two lists of fields are written one after the other. -/
theorem encode_append (fields fields' : List Field) :
    encode (fields ++ fields') = encode fields ++ encode fields' := List.flatMap_append

/-- A message of one field. -/
theorem encode_singleton (field : Field) : encode [field] = encodeField field := List.flatMap_singleton _ _

/-- A number of 64 bits takes at most 20 bytes, with its key. -/
theorem length_encodeField_number {key n : ℕ} (hkey : 8 * key < 2 ^ 64) (h : n < 2 ^ 64) :
    (encodeField (key, .number n)).length ≤ 20 := by
  have htag := length_encodeVarint_le hkey
  have hvalue := length_encodeVarint_le h
  rw [encodeField, List.length_append]
  omega

/-- A string takes at most 20 bytes more than it has. -/
theorem length_encodeField_bytes {key : ℕ} {bytes : Bytes} (hkey : 8 * key + 2 < 2 ^ 64)
    (h : bytes.length < 2 ^ 64) : (encodeField (key, .bytes bytes)).length ≤ 20 + bytes.length := by
  have htag := length_encodeVarint_le hkey
  have hvalue := length_encodeVarint_le h
  rw [encodeField, List.length_append, List.length_append]
  omega

/-! ## Reading a field -/

/-- A number that is left out where it is zero. -/
def scalar (key n : ℕ) : List Field := if n = 0 then [] else [(key, .number n)]

/-- A number that may be there. -/
def optional (key : ℕ) (n : Option ℕ) : List Field := (n.map fun n => (key, .number n)).toList

/-- A scalar takes at most 20 bytes. -/
theorem length_encode_scalar {key n : ℕ} (hkey : 8 * key < 2 ^ 64) (h : n < 2 ^ 64) :
    (encode (scalar key n)).length ≤ 20 := by
  unfold scalar
  split_ifs
  · exact Nat.zero_le _
  · rw [encode_singleton]
    exact length_encodeField_number hkey h

/-- An optional number takes at most 20 bytes. -/
theorem length_encode_optional {key : ℕ} {n : Option ℕ} (hkey : 8 * key < 2 ^ 64)
    (h : ∀ m ∈ n, m < 2 ^ 64) : (encode (optional key n)).length ≤ 20 := by
  cases n with
  | none => exact Nat.zero_le _
  | some m => exact (encode_singleton (key, .number m)).symm ▸ length_encodeField_number hkey (h m rfl)

/-- The last number of a field. -/
def numberOf (key : ℕ) (fields : List Field) : Option ℕ :=
  fields.reverse.findSome? fun
    | (k, .number n) => if k = key then some n else none
    | (_, .bytes _) => none

/-- The last bytes of a field. -/
def bytesOf (key : ℕ) (fields : List Field) : Option Bytes :=
  fields.reverse.findSome? fun
    | (k, .bytes bytes) => if k = key then some bytes else none
    | (_, .number _) => none

/-- A number that is left out reads as zero. -/
def scalarOf (key : ℕ) (fields : List Field) : ℕ := (numberOf key fields).getD 0

/-- The last occurrence of a field counts. -/
@[simp] theorem numberOf_append (key : ℕ) (fields fields' : List Field) :
    numberOf key (fields ++ fields') = (numberOf key fields').or (numberOf key fields) := by
  unfold numberOf
  rw [List.reverse_append, List.findSome?_append]

/-- An optional field has its number, when it is there. -/
@[simp] theorem numberOf_optional (key k : ℕ) (n : Option ℕ) :
    numberOf key (optional k n) = if k = key then n else none := by
  cases n <;> simp [numberOf, optional]

/-- A scalar is left out when it is zero. -/
@[simp] theorem numberOf_scalar (key k n : ℕ) :
    numberOf key (scalar k n) = if k = key ∧ n ≠ 0 then some n else none := by
  unfold scalar
  split_ifs <;> simp_all [numberOf]

/-- A scalar that is left out reads as zero. -/
@[simp] theorem getD_scalar (n : ℕ) : (if n = 0 then none else some n).getD 0 = n := by
  split_ifs with h
  · exact h.symm
  · rfl

end Wire
