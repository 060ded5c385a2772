import FrameLog.Text
import Mathlib.Data.List.Basic

/-!
# Lines of a text

Cutting the bytes of a text at newlines and decoding the pieces gives the lines of the text: in
UTF-8 only the newline itself is written with the byte of the newline.
-/

namespace FrameLog.Text

/-- The lines of a text, each without its newline. There is no line after the last newline. -/
def lines : List Char → List (List Char)
  | [] => []
  | c :: rest =>
    if c = '\n' then [] :: lines rest
    else match lines rest with
      | [] => [[c]]
      | line :: more => (c :: line) :: more

theorem lines_cons {c : Char} (h : c ≠ '\n') (rest : List Char) :
    lines (c :: rest) = (c :: (lines rest).headD []) :: (lines rest).tail := by
  rw [lines, if_neg h]
  cases lines rest <;> rfl

/-! ## Bytes -/

/-- The bytes of a text in UTF-8. -/
def encode (cs : List Char) : List UInt8 := cs.flatMap String.utf8EncodeChar

theorem encode_cons (c : Char) (cs : List Char) :
    encode (c :: cs) = String.utf8EncodeChar c ++ encode cs := List.flatMap_cons

theorem encode_append (cs ds : List Char) : encode (cs ++ ds) = encode cs ++ encode ds :=
  List.flatMap_append

/-- Longer encodings are made of bytes with the high bit set. -/
theorem newline_ne_ofNat {k high : Nat} (h : 0 < k ∧ 128 ≤ high ∧ high + k ≤ 256) (n : Nat) :
    (10 : UInt8) ≠ UInt8.ofNat (n % k + high) := by
  intro heq
  have hmod := Nat.mod_lt n h.1
  have hnat := congrArg UInt8.toNat heq
  rw [UInt8.toNat_ofNat_of_lt' (by simp only [UInt8.size]; omega)] at hnat
  simp only [UInt8.reduceToNat] at hnat
  omega

theorem newline_not_mem_utf8EncodeChar {c : Char} (h : c ≠ '\n') :
    (10 : UInt8) ∉ String.utf8EncodeChar c := by
  have hval : c.val.toNat ≠ 10 := fun heq => h (Char.ext (UInt32.toNat_inj.mp heq))
  have hascii : c.val.toNat ≤ 127 → (10 : UInt8) ≠ UInt8.ofNat c.val.toNat := by
    intro hle heq
    have hnat := congrArg UInt8.toNat heq
    rw [UInt8.toNat_ofNat_of_lt' (by simp only [UInt8.size]; omega)] at hnat
    exact hval hnat.symm
  unfold String.utf8EncodeChar
  dsimp only
  split
  · rename_i hle
    simpa using hascii hle
  · have htail (n : Nat) : (10 : UInt8) ≠ UInt8.ofNat (n % 64 + 128) :=
      newline_ne_ofNat (by decide) n
    split
    · simp only [List.mem_cons, List.not_mem_nil, or_false, not_or]
      exact ⟨newline_ne_ofNat (by decide) _, htail _⟩
    · split
      · simp only [List.mem_cons, List.not_mem_nil, or_false, not_or]
        exact ⟨newline_ne_ofNat (by decide) _, htail _, htail _⟩
      · simp only [List.mem_cons, List.not_mem_nil, or_false, not_or]
        exact ⟨newline_ne_ofNat (by decide) _, htail _, htail _, htail _⟩

theorem byteLines_append {bytes : List UInt8} (h : 10 ∉ bytes) (hne : bytes ≠ [])
    (rest : List UInt8) :
    byteLines (bytes ++ rest) =
      (bytes ++ (byteLines rest).headD []) :: (byteLines rest).tail := by
  induction bytes with
  | nil => exact absurd rfl hne
  | cons b bytes ih =>
      rw [List.mem_cons, not_or] at h
      rw [List.cons_append, byteLines, if_neg (Ne.symm h.1)]
      by_cases hbytes : bytes = []
      · rw [hbytes, List.nil_append]
        cases byteLines rest <;> rfl
      · rw [ih h.2 hbytes]
        rfl

theorem byteLines_encode (cs : List Char) : byteLines (encode cs) = (lines cs).map encode := by
  induction cs with
  | nil => rfl
  | cons c cs ih =>
      rw [encode_cons]
      by_cases hc : c = '\n'
      · rw [hc, lines, if_pos rfl, List.map_cons, ← ih]
        rfl
      · rw [byteLines_append (newline_not_mem_utf8EncodeChar hc) String.utf8EncodeChar_ne_nil, ih,
          lines_cons hc, List.map_cons, encode_cons, List.map_tail]
        congr 2
        cases lines cs <;> rfl

theorem toByteArray_encode (cs : List Char) :
    (⟨(encode cs).toArray⟩ : ByteArray) = (String.ofList cs).toByteArray := by
  rw [String.toByteArray_ofList]
  exact ByteArray.ext List.data_toByteArray.symm

theorem decodeLine_encode (cs : List Char) : decodeLine (encode cs) = some (String.ofList cs) := by
  unfold decodeLine String.fromUTF8?
  rw [toByteArray_encode, dif_pos (String.ofList cs).isValidUTF8]
  rfl

theorem encode_toList (input : String) : input.toUTF8.data.toList = encode input.toList := by
  have hbytes := toByteArray_encode input.toList
  rw [String.ofList_toList] at hbytes
  rw [String.toUTF8, ← hbytes]

/-- The lines that are read from the bytes of a text. -/
theorem inputLines_toUTF8 (input : String) :
    inputLines input.toUTF8.data.toList =
      (lines input.toList).map fun line => some (String.ofList line) := by
  rw [encode_toList, inputLines, byteLines_encode, List.map_map]
  exact List.map_congr_left fun line _ => decodeLine_encode line

end FrameLog.Text
