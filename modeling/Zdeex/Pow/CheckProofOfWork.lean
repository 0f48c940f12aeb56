import Mathlib.Tactic.Common
import Zdeex.Primitives.Uint256
import Zdeex.Pow.ArithUint256

namespace Zdeex.Pow

structure CBlockHeader where
  nVersion : Int
  hashPrevBlock : Uint256
  hashMerkleRoot : Uint256
  hashFinalSaplingRoot : Uint256
  nTime : BitVec 32
  nBits : BitVec 32
  nNonce : Uint256
  nSolution : List (BitVec 8)

structure Params where
  powLimit : ArithUint256
  powAlternate : ArithUint256

/-- The globals that `CheckProofOfWork` reads. -/
structure Globals where
  ASSETCHAINS_ALGO : BitVec 32
  ASSETCHAINS_EQUIHASH : BitVec 32
  ASSETCHAINS_STAKED : BitVec 64
  HUSH_LOADINGBLOCKS : Int
  currentheight : Int

def HUSH_MINDIFF_NBITS : BitVec 32 := 0x200f0f0f

section Check

variable (getHash : CBlockHeader → Uint256) (G : Globals) (params : Params)

/-- Height 0 stands for the next block. -/
def bnLimit (height : Int) : ArithUint256 :=
  let height := if height=0 then G.currentheight+1 else height
  if height≤1 || G.ASSETCHAINS_ALGO=G.ASSETCHAINS_EQUIHASH then params.powLimit
  else params.powAlternate

/-- Staked chains compare against the minimum difficulty. -/
def enforcedTarget (blkHeader : CBlockHeader) : ArithUint256 :=
  if G.ASSETCHAINS_STAKED≠0 then (setCompact HUSH_MINDIFF_NBITS).target
  else (setCompact blkHeader.nBits).target

def checkProofOfWork (blkHeader : CBlockHeader) (height : Int) : Bool :=
  let bits := setCompact blkHeader.nBits
  if bits.fNegative || bits.target=0 || bits.fOverflow || bits.target>bnLimit G params height then
    false
  else if getHash blkHeader>enforcedTarget G blkHeader then
    if G.HUSH_LOADINGBLOCKS≠0 then true
    else true
  else true

/-- `nBits` decodes to a target within the limit of this height and algorithm. -/
structure TargetOk (blkHeader : CBlockHeader) (height : Int) : Prop where
  notNegative : (setCompact blkHeader.nBits).fNegative=false
  notOverflow : (setCompact blkHeader.nBits).fOverflow=false
  notZero : (setCompact blkHeader.nBits).target≠0
  withinLimit : (setCompact blkHeader.nBits).target≤bnLimit G params height

/-- The header hash plays no part in the answer. -/
theorem checkProofOfWork_iff_targetOk (blkHeader : CBlockHeader) (height : Int) :
    checkProofOfWork getHash G params blkHeader height=true ↔
      TargetOk G params blkHeader height := by
  have hanswer : checkProofOfWork getHash G params blkHeader height=true ↔
      ¬((setCompact blkHeader.nBits).fNegative || (setCompact blkHeader.nBits).target=0 ||
        (setCompact blkHeader.nBits).fOverflow ||
        (setCompact blkHeader.nBits).target>bnLimit G params height)=true := by
    unfold checkProofOfWork
    dsimp only
    split_ifs with hbits
    · exact ⟨fun h => by simp at h,fun h => absurd hbits h⟩
    all_goals exact ⟨fun _ => hbits,fun _ => rfl⟩
  rw [hanswer,Bool.not_eq_true]
  simp only [Bool.or_eq_false_iff,decide_eq_false_iff_not,gt_iff_lt,BitVec.not_lt]
  constructor
  · rintro ⟨⟨⟨hneg,hzero⟩,hover⟩,hlimit⟩
    exact ⟨hneg,hover,hzero,hlimit⟩
  · intro h
    exact ⟨⟨⟨h.notNegative,h.notZero⟩,h.notOverflow⟩,h.withinLimit⟩

/-- After loading, proof of work is enforced for a header exactly when its
`nBits` is refused or its hash happens to reach the enforced target. -/
theorem checkProofOfWork_enforces_iff (blkHeader : CBlockHeader) (height : Int) :
    (G.HUSH_LOADINGBLOCKS=0 → checkProofOfWork getHash G params blkHeader height=true →
      TargetOk G params blkHeader height ∧ getHash blkHeader≤enforcedTarget G blkHeader) ↔
    G.HUSH_LOADINGBLOCKS≠0 ∨ ¬TargetOk G params blkHeader height ∨
      getHash blkHeader≤enforcedTarget G blkHeader := by
  rw [checkProofOfWork_iff_targetOk]
  constructor
  · intro h
    by_cases hloaded : G.HUSH_LOADINGBLOCKS=0
    · by_cases hok : TargetOk G params blkHeader height
      · exact .inr (.inr (h hloaded hok).2)
      · exact .inr (.inl hok)
    · exact .inl hloaded
  · rintro (hloading | hbad | hhash) hloaded hok
    · exact absurd hloaded hloading
    · exact absurd hok hbad
    · exact ⟨hok,hhash⟩

end Check

/-- The main network: Equihash, not staked, and loading is over. -/
def mainGlobals : Globals := ⟨0,0,0,0,1700000⟩

def mainParams : Params where
  powLimit := 0x0f0f0f0f0f0f0f0f0f0f0f0f0f0f0f0f0f0f0f0f0f0f0f0f0f0f0f0f0f0f0f0f
  powAlternate := 0x0f0f0f0f0f0f0f0f0f0f0f0f0f0f0f0f0f0f0f0f0f0f0f0f0f0f0f0f0f0f0f0f

/-- A header without any work; its hash is the largest number there is. -/
def idleHeader : CBlockHeader := ⟨4,0,0,0,0,HUSH_MINDIFF_NBITS,0,[]⟩

theorem checkProofOfWork_accepts_idleHeader :
    mainGlobals.HUSH_LOADINGBLOCKS=0 ∧
    checkProofOfWork (fun _ => BitVec.allOnes 256) mainGlobals mainParams idleHeader 1700001=true ∧
    ¬(fun _ => BitVec.allOnes 256) idleHeader≤enforcedTarget mainGlobals idleHeader := by
  decide

end Zdeex.Pow
