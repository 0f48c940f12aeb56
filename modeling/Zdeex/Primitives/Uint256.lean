namespace Zdeex

/-- Opaque 256-bit blobs: transaction ids, block hashes, nullifiers and roots. -/
abbrev Uint256 := BitVec 256

namespace Uint256

instance instLawfulBEq : LawfulBEq Uint256 := inferInstance

def isNull (h : Uint256) : Bool := h==0

@[simp] theorem isNull_iff (h : Uint256) : h.isNull=true ↔ h=0 := by
  simp [isNull]

end Uint256

end Zdeex
