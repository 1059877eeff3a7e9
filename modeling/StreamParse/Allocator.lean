/-!
# Allocators

Storage that is asked for is granted or refused, and whoever asks has to expect either.  Everything
in this library is the same for all allocators; a program that runs takes the ample one.
-/

namespace StreamParse

class Allocator where
  /-- Whether an allocation of so many bytes is granted. -/
  grants : Nat → Bool

namespace Allocator

/-- The least allocation that no machine grants. -/
def unobtainable : Nat := 0x1000000000000000

/-- Grants all that some machine grants. -/
instance ample : Allocator where
  grants size := size < unobtainable

end Allocator

end StreamParse
