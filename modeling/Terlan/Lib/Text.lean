/-
  Text of the Rust standard library: `char::is_whitespace`, `str::trim` against the empty
  text, and the UTF-8 bytes of a text.
-/
import Std.Data.ExtTreeMap

namespace Terlan.Lib

/-- The characters with the Unicode property `White_Space`. -/
def isWhitespace (c : Char) : Bool :=
  (9 ≤ c.val && c.val ≤ 13) || c.val == 32 || c.val == 0x85 || c.val == 0xA0 ||
    c.val == 0x1680 || (0x2000 ≤ c.val && c.val ≤ 0x200A) || c.val == 0x2028 ||
    c.val == 0x2029 || c.val == 0x202F || c.val == 0x205F || c.val == 0x3000

/-- `text.trim().is_empty()`. -/
def isBlank (text : String) : Bool := text.toList.all isWhitespace

/-- `text.as_bytes()`. -/
def asBytes (text : String) : List UInt8 := text.toByteArray.data.toList

/-- `str::from_utf8(bytes).ok()`. -/
def fromUtf8 (bytes : List UInt8) : Option String := String.fromUTF8? ⟨bytes.toArray⟩

theorem fromUtf8_asBytes (text : String) : fromUtf8 (asBytes text) = some text := by
  have valid : (⟨(asBytes text).toArray⟩ : ByteArray).IsValidUTF8 := text.isValidUTF8
  unfold fromUtf8 String.fromUTF8?
  rw [dif_pos valid]
  rfl

theorem asBytes_of_fromUtf8 {bytes : List UInt8} {text : String}
    (h : fromUtf8 bytes = some text) : asBytes text = bytes := by
  unfold fromUtf8 String.fromUTF8? at h
  split at h
  next => cases h; rfl
  next => cases h

theorem asBytes_injective {a b : String} (h : asBytes a = asBytes b) : a = b := by
  have ha := fromUtf8_asBytes a
  rw [h, fromUtf8_asBytes] at ha
  exact (Option.some.inj ha).symm

/-- Numbers print differently. -/
theorem toString_injective {a b : Nat} (h : toString a = toString b) : a = b := by
  have digits : Nat.toDigits 10 a = Nat.toDigits 10 b := by
    rw [← Nat.toList_repr, ← Nat.toList_repr]
    exact congrArg String.toList h
  have back := congrArg (Nat.ofDigitChars 10 · 0) digits
  simpa [Nat.ofDigitChars_toDigits] using back

end Terlan.Lib
