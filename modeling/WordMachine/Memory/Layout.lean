/-!
# The memory map

Memory is one flat run of bytes in three regions that follow each other
without a gap: working memory, the video buffer, and the program image.
-/

namespace WordMachine

namespace Layout

abbrev ramSize : Nat := 0x4000
abbrev videoSize : Nat := 0x4000
abbrev romSize : Nat := 0x4000

abbrev ramBase : Nat := 0
abbrev videoBase : Nat := ramBase + ramSize
abbrev romBase : Nat := videoBase + videoSize

/-- The number of bytes in memory, which is also the first address past its
end. -/
abbrev spaceSize : Nat := romBase + romSize

end Layout

inductive Region where
  | ram
  | video
  | rom
deriving DecidableEq, Repr

/-- The region that holds the byte at an address. -/
def Region.ofAddress (address : Nat) : Region :=
  if Layout.romBase ≤ address then .rom
  else if Layout.videoBase ≤ address then .video
  else .ram

end WordMachine
