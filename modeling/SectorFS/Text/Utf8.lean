/-!
# Reading UTF-8 that may be malformed

Bytes that are no UTF-8 are replaced, not refused: each maximal ill-formed
subsequence becomes one replacement character. Such a subsequence is the longest
start of a well-formed one that the bytes break off, or a single byte that starts
none. Text that was encoded is read back as it was (`decode_encode`).
-/

namespace SectorFS.Text.Utf8

/-- Stands for bytes that are no UTF-8. -/
def replacement : Char := '\uFFFD'

/-- Whether a byte continues a sequence. -/
def continues (byte : UInt8) : Bool := 0x80 ≤ byte && byte ≤ 0xBF

/-- Whether a second byte can follow a first one. Four first bytes narrow the range of the second,
which excludes overlong forms, surrogates and numbers above the last code point. -/
def follows (first second : UInt8) : Bool :=
  if first = 0xE0 then 0xA0 ≤ second && second ≤ 0xBF
  else if first = 0xED then 0x80 ≤ second && second ≤ 0x9F
  else if first = 0xF0 then 0x90 ≤ second && second ≤ 0xBF
  else if first = 0xF4 then 0x80 ≤ second && second ≤ 0x8F
  else 0xC2 ≤ first && first ≤ 0xF4 && continues second

/-- The length of the ill-formed subsequence at the start of bytes that start with no character. -/
def malformedLength : List UInt8 → Nat
  | first :: second :: third :: _ =>
    if follows first second then (if continues third then 3 else 2) else 1
  | [first, second] => if follows first second then 2 else 1
  | _ => 1

/-- The characters of a text, with a replacement character for each ill-formed subsequence. -/
def decode (bytes : List UInt8) : List Char :=
  match bytes with
  | [] => []
  | first :: rest =>
    match ByteArray.utf8DecodeChar? (first :: rest).toByteArray 0 with
    | some char => char :: decode (rest.drop (char.utf8Size - 1))
    | none => replacement :: decode (rest.drop (malformedLength (first :: rest) - 1))
termination_by bytes.length
decreasing_by all_goals simp only [List.length_drop, List.length_cons]; omega

/-- The bytes of a text. -/
def encode (chars : List Char) : List UInt8 := chars.flatMap String.utf8EncodeChar

theorem encode_nil : encode [] = [] := rfl

theorem encode_cons (char : Char) (chars : List Char) :
    encode (char :: chars) = String.utf8EncodeChar char ++ encode chars := rfl

/-- A character at the start of the bytes is read first. -/
theorem decode_utf8EncodeChar_append (char : Char) (bytes : List UInt8) :
    decode (String.utf8EncodeChar char ++ bytes) = char :: decode bytes := by
  have hlength : (String.utf8EncodeChar char).length = char.utf8Size :=
    String.length_utf8EncodeChar char
  have hpos := char.utf8Size_pos
  have hstart :
      (String.utf8EncodeChar char ++ bytes).toByteArray.utf8DecodeChar? 0 = some char := by
    rw [List.toByteArray_append]
    have := @List.utf8DecodeChar?_utf8Encode_singleton_append bytes.toByteArray char
    rwa [List.utf8Encode_singleton] at this
  cases hbytes : String.utf8EncodeChar char with
  | nil => simp [hbytes] at hlength; omega
  | cons first rest =>
    rw [hbytes] at hstart hlength
    rw [List.cons_append] at hstart ⊢
    rw [decode]
    simp only [hstart]
    rw [List.drop_left' (by simp only [List.length_cons] at hlength; omega)]

/-- Text that was encoded is read back. -/
@[simp] theorem decode_encode (chars : List Char) : decode (encode chars) = chars := by
  induction chars with
  | nil => simp [encode_nil, decode]
  | cons char rest ih => rw [encode_cons, decode_utf8EncodeChar_append, ih]

theorem encode_inj {left right : List Char} (h : encode left = encode right) : left = right := by
  rw [← decode_encode left, h, decode_encode]

theorem length_encode_toList (text : String) :
    (encode text.toList).length = text.utf8ByteSize := by
  rw [← String.size_toByteArray, ← String.utf8Encode_toList, List.utf8Encode,
    List.size_toByteArray, encode]

/-- A byte below `128` encodes the character of its number and is part of no other encoding. -/
theorem toNat_of_mem_utf8EncodeChar {char : Char} {byte : UInt8} (hbyte : byte.toNat < 128)
    (h : byte ∈ String.utf8EncodeChar char) : byte.toNat = char.val.toNat := by
  unfold String.utf8EncodeChar at h
  simp only at h
  split at h
  · rw [List.mem_singleton] at h
    rw [h, UInt8.toNat_ofNat']
    omega
  · split at h
    · simp only [List.mem_cons, List.not_mem_nil, or_false] at h
      rcases h with rfl | rfl <;> rw [UInt8.toNat_ofNat'] at hbyte <;> omega
    · split at h
      · simp only [List.mem_cons, List.not_mem_nil, or_false] at h
        rcases h with rfl | rfl | rfl <;> rw [UInt8.toNat_ofNat'] at hbyte <;> omega
      · simp only [List.mem_cons, List.not_mem_nil, or_false] at h
        rcases h with rfl | rfl | rfl | rfl <;> rw [UInt8.toNat_ofNat'] at hbyte <;> omega

/-- Only the zero character has a zero byte. -/
theorem zero_not_mem_utf8EncodeChar {char : Char} (h : char ≠ '\x00') :
    0 ∉ String.utf8EncodeChar char := by
  intro hmem
  have hvalue := toNat_of_mem_utf8EncodeChar (by decide) hmem
  exact h (Char.ext (UInt32.toNat_inj.mp hvalue.symm))

theorem zero_not_mem_encode {chars : List Char} (h : '\x00' ∉ chars) : 0 ∉ encode chars := by
  intro hmem
  obtain ⟨char, hchar, hbyte⟩ := List.mem_flatMap.mp hmem
  exact zero_not_mem_utf8EncodeChar (by rintro rfl; exact h hchar) hbyte

/-- Only a zero byte is read as the zero character. -/
theorem zero_not_mem_decode {bytes : List UInt8} (h : 0 ∉ bytes) : '\x00' ∉ decode bytes := by
  fun_induction decode bytes with
  | case1 => exact List.not_mem_nil
  | case2 first rest char hchar ih =>
    rw [List.mem_cons, not_or] at h
    rw [List.mem_cons, not_or]
    refine ⟨?_, ih fun hmem ↦ h.2 (List.mem_of_mem_drop hmem)⟩
    rintro rfl
    have hhead := congrArg (·.data.toList.head?) (ByteArray.eq_of_utf8DecodeChar?_eq_some hchar)
    have hzero : String.utf8EncodeChar '\x00' = [0] := by decide
    have hfirst : first = 0 := by simpa [hzero] using hhead
    exact h.1 hfirst.symm
  | case3 first rest hchar ih =>
    rw [List.mem_cons, not_or] at h
    rw [List.mem_cons, not_or]
    exact ⟨by decide, ih fun hmem ↦ h.2 (List.mem_of_mem_drop hmem)⟩

end SectorFS.Text.Utf8
