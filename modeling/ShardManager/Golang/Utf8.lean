import Mathlib.Data.List.Basic
import Mathlib.Data.String.Basic

namespace golang

/-- A Go string: any sequence of bytes. -/
abbrev Bytes := List UInt8

/-- The bytes of a text. -/
def utf8 (text : String) : Bytes := text.toList.flatMap String.utf8EncodeChar

/-- Ranging over a string yields U+FFFD for each byte that does not start a
valid encoding. -/
def decodeRunes : Nat → Bytes → List Char
  | 0, _ => []
  | _, [] => []
  | fuel + 1, byte :: bytes =>
    match (byte :: bytes).toByteArray.utf8DecodeChar? 0 with
    | some rune => rune :: decodeRunes fuel ((byte :: bytes).drop rune.utf8Size)
    | none => '\uFFFD' :: decodeRunes fuel bytes

/-- What `encoding/json` reads back of a string it has written. -/
def jsonString (bytes : Bytes) : String := String.ofList (decodeRunes bytes.length bytes)

/-- The bytes are those of a text. -/
def ValidUtf8 (bytes : Bytes) : Prop := ∃ text, utf8 text = bytes

theorem decodeRunes_flatMap (runes : List Char) {fuel : Nat}
    (hfuel : (runes.flatMap String.utf8EncodeChar).length ≤ fuel) :
    decodeRunes fuel (runes.flatMap String.utf8EncodeChar) = runes := by
  induction runes generalizing fuel with
  | nil => cases fuel <;> rfl
  | cons rune runes ih =>
    have hlength := String.length_utf8EncodeChar rune
    have hpos := rune.utf8Size_pos
    rw [List.flatMap_cons, List.length_append] at hfuel
    rw [List.flatMap_cons]
    obtain ⟨fuel, rfl⟩ : ∃ n, fuel = n + 1 := ⟨fuel - 1, by omega⟩
    cases hbytes : String.utf8EncodeChar rune ++ runes.flatMap String.utf8EncodeChar with
    | nil =>
      rw [List.append_eq_nil_iff.mp hbytes |>.1] at hlength
      exact absurd hlength.symm hpos.ne'
    | cons byte bytes =>
      have hdecode : (byte :: bytes).toByteArray.utf8DecodeChar? 0 = some rune := by
        rw [← hbytes, List.toByteArray_append]
        exact ByteArray.utf8DecodeChar?_utf8EncodeChar_append
      have hrest : (byte :: bytes).drop rune.utf8Size = runes.flatMap String.utf8EncodeChar := by
        rw [← hbytes, ← hlength, List.drop_left]
      rw [decodeRunes, hdecode]
      dsimp only
      rw [hrest, ih (by omega)]

/-- A text survives being written and read back. -/
@[simp] theorem jsonString_utf8 (text : String) : jsonString (utf8 text) = text := by
  rw [jsonString, utf8, decodeRunes_flatMap text.toList le_rfl, String.ofList_toList]

theorem validUtf8_iff {bytes : Bytes} : ValidUtf8 bytes ↔ utf8 (jsonString bytes) = bytes := by
  constructor
  · rintro ⟨text, rfl⟩
    rw [jsonString_utf8]
  · intro h
    exact ⟨_, h⟩

instance (bytes : Bytes) : Decidable (ValidUtf8 bytes) := decidable_of_iff _ validUtf8_iff.symm

-- The first half of a two-byte rune is replaced.
example : ¬ValidUtf8 [0x61, 0xC3] ∧ jsonString [0x61, 0xC3] = "a\uFFFD" := by decide +kernel

end golang
