import ShardManager.EtcdKeys
import ShardManager.Golang.Utf8

open golang

namespace hostname

/-- `strings.ReplaceAll` of one ASCII character by another. -/
def replaceAll (raw : Bytes) (old new : Char) : Bytes :=
  raw.map fun byte => if byte = old.toUInt8 then new.toUInt8 else byte

/-- Makes a hostname safe as an etcd path segment and as the host portion of
`hostname@uuid` executor IDs. It is cut at a byte, not at a rune. -/
def normalize (raw : Bytes) : Bytes :=
  let raw := replaceAll raw '/' '_'
  let raw := replaceAll raw '@' '_'
  if maxLength < raw.length then raw.take maxLength else raw

theorem normalize_eq_take (raw : Bytes) :
    normalize raw = (replaceAll (replaceAll raw '/' '_') '@' '_').take maxLength := by
  unfold normalize
  dsimp only
  split
  · rfl
  · rename_i hlength
    rw [List.take_of_length_le (not_lt.mp hlength)]

/-- A host that is reported is not normalized away. -/
theorem normalize_eq_nil_iff {raw : Bytes} : normalize raw = [] ↔ raw = [] := by
  rw [normalize_eq_take, List.take_eq_nil_iff, or_iff_right (by decide)]
  simp [replaceAll]

end hostname
