/-!
# Program images

A program image is a string of bytes, without header or relocation.  This
module says how placing one in memory can fail.
-/

namespace WordMachine

/-- Common reasons why the file system does not give the contents of a file. -/
inductive ReadFailure where
  | notFound
  | isDirectory
deriving DecidableEq, Repr

/-- How an image was not placed in memory.  Reasons of the file system can be of any type,
as nothing here looks into them. -/
inductive LoadFault (Reason : Type := ReadFailure) where
  /-- The image does not fit into the region for it. -/
  | tooLarge (length capacity : Nat)
  /-- The file at this path could not be read. -/
  | unreadable (path : String) (reason : Reason)
deriving DecidableEq, Repr

def LoadFault.message {Reason : Type} : LoadFault Reason → String
  | tooLarge length capacity => s!"image of {length} bytes exceeds ROM capacity of {capacity} bytes"
  | unreadable path _ => "could not read image '" ++ path ++ "'"

end WordMachine
