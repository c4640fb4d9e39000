import Mathlib.Data.List.Basic

/-!
# Slices and overwrites of byte blocks

A block of memory is the list of its bytes. Reading `length` bytes at an
offset and copying bytes over an offset are the only accesses needed.
-/
namespace ByteBlock

abbrev Bytes := List UInt8

/-- The bytes of an ASCII text. -/
def ascii (text : String) : Bytes := text.toList.map fun c => UInt8.ofNat c.toNat

/-- A C string ends at its first NUL. -/
def cString (bytes : Bytes) : Bytes := bytes.takeWhile (· ≠ 0)

variable {α : Type}

/-- The `length` elements from `offset` on. -/
def slice (offset length : Nat) (block : List α) : List α := (block.drop offset).take length

/-- Copy `source` over the block, its first element at `offset`. -/
def overwrite (offset : Nat) (source block : List α) : List α :=
  block.take offset ++ source ++ block.drop (offset + source.length)

@[simp] theorem slice_zero (offset : Nat) (block : List α) : slice offset 0 block = [] := by
  simp [slice]

theorem length_slice {offset length : Nat} {block : List α} (h : offset + length ≤ block.length) :
    (slice offset length block).length = length := by
  simp only [slice, List.length_take, List.length_drop]
  omega

theorem slice_take {offset length bound : Nat} (block : List α) (h : offset + length ≤ bound) :
    slice offset length (block.take bound) = slice offset length block := by
  simp only [slice, List.drop_take, List.take_take]
  congr 1
  omega

theorem length_overwrite {offset : Nat} {source block : List α}
    (h : offset + source.length ≤ block.length) :
    (overwrite offset source block).length = block.length := by
  simp only [overwrite, List.length_append, List.length_take, List.length_drop]
  omega

/-- Appending at a fill mark extends the filled part by exactly the copied bytes. -/
theorem take_overwrite {fill : Nat} {source block : List α}
    (h : fill + source.length ≤ block.length) :
    (overwrite fill source block).take (fill + source.length) = block.take fill ++ source := by
  have hl : (block.take fill ++ source).length = fill + source.length := by
    simp only [List.length_append, List.length_take]
    omega
  rw [overwrite, ← hl, List.take_left]

end ByteBlock
