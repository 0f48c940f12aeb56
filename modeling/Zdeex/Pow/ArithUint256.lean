namespace Zdeex.Pow

/-- `arith_uint256`, compared and shifted as an unsigned number. -/
abbrev ArithUint256 := BitVec 256

/-- A decoded compact target with the two flags of `SetCompact`. -/
structure Compact where
  target : ArithUint256
  fNegative : Bool
  fOverflow : Bool
  deriving DecidableEq

/-- The mantissa is already shifted down when the flags are computed. -/
def setCompact (nCompact : BitVec 32) : Compact :=
  let nSize := (nCompact >>> 24).toNat
  let word := nCompact &&& 0x007fffff
  let nWord := if nSize≤3 then word >>> (8*(3-nSize)) else word
  { target := if nSize≤3 then nWord.setWidth 256 else nWord.setWidth 256 <<< (8*(nSize-3))
    fNegative := nWord≠0 && nCompact &&& 0x00800000≠0
    fOverflow := nWord≠0 && (nSize>34 || nWord>0xff && nSize>33 || nWord>0xffff && nSize>32) }

end Zdeex.Pow
