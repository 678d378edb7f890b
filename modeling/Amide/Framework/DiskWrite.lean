import Mathlib.Data.List.Basic

/-!
# Writes of a process that may die

What an operation does to a file is a list of writes, each an append, a truncation or a replacement.
A process that dies in the middle of them has done some, and of an append or a truncation perhaps a
part; a replacement is a rename and is done or not (`Leaves`).
-/

inductive DiskWrite where
  | append (bytes : List UInt8)
  | truncate (length : ℕ)
  | replace (bytes : List UInt8)

/-- The file a write leaves. -/
def DiskWrite.apply (file : Option (List UInt8)) : DiskWrite → Option (List UInt8)
  | .append bytes => some (file.getD [] ++ bytes)
  | .truncate length => file.map (List.take length)
  | .replace bytes => some bytes

/-- What a process may leave of a file, dying somewhere in its writes. -/
inductive Leaves : List DiskWrite → Option (List UInt8) → Option (List UInt8) → Prop
  | untouched (writes : List DiskWrite) (file : Option (List UInt8)) : Leaves writes file file
  | torn {bytes part : List UInt8} (hpart : part <+: bytes) (writes : List DiskWrite)
      (file : Option (List UInt8)) :
      Leaves (.append bytes :: writes) file (some (file.getD [] ++ part))
  | shortened {length : ℕ} {bytes left : List UInt8} (hleft : left <+: bytes)
      (hkept : bytes.take length <+: left) (writes : List DiskWrite) :
      Leaves (.truncate length :: writes) (some bytes) (some left)
  | next {write : DiskWrite} {writes : List DiskWrite} {file file' : Option (List UInt8)}
      (h : Leaves writes (write.apply file) file') : Leaves (write :: writes) file file'

lemma Leaves.of_nil {file file' : Option (List UInt8)} (h : Leaves [] file file') :
    file' = file := by
  cases h
  rfl
