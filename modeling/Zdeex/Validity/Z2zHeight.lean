import Mathlib.Tactic.Common
import Zdeex.Block.CheckTransaction
import Zdeex.Framework.Run

namespace Zdeex.Validity

open Zdeex.Framework
open Zdeex.Coins
open Zdeex.Block

/-- The command line of HUSH3, as far as the switch at the z2z height reads it. -/
structure Args where
  z2zheight : Int
  acPrivate : Bool

/-- The height that is hard-coded beside `-z2zheight`. -/
def defaultZ2zheight : Int := 340000

/-- The two rules that are held in process-wide variables. -/
structure Globals where
  ASSETCHAINS_PRIVATE : Bool
  ASSETCHAINS_BLOCKTIME : Int
  deriving DecidableEq

/-- A node: the variables, and the active chain from its tip down to genesis. -/
structure Node (Blk : Type) extends Globals where
  nFirstHalvingHeight : Int
  chainActive : List Blk

variable {Blk : Type}

def Node.height (s : Node Blk) : Int := s.chainActive.length-1

/-- A signed 32-bit number, converted for a comparison with an unsigned one. -/
def asUnsigned (n : Int) : Int := n%2^32

/-- Block time 75 from a height on. -/
def halveBlocktime (g : Globals) (nHeight nFirstHalvingHeight : Int) : Globals :=
  if g.ASSETCHAINS_BLOCKTIME≠75 ∧ nFirstHalvingHeight≤nHeight then
    {g with ASSETCHAINS_BLOCKTIME := 75} else g

def goPrivate (g : Globals) (nHeight nFirstHalvingHeight : Int) : Globals :=
  if g.ASSETCHAINS_PRIVATE=false ∧ asUnsigned nFirstHalvingHeight≤asUnsigned nHeight then
    {g with ASSETCHAINS_PRIVATE := true} else g

namespace Node

variable (A : Args) (s : Node Blk)

/-- What `ConnectBlock` sets before it checks the block on top of the tip: the
block's height counts for privacy, that of the tip for the block time. -/
def connectSwitch : Globals :=
  halveBlocktime (goPrivate s.toGlobals (s.height+1) A.z2zheight) s.height A.z2zheight

/-- What `ContextualCheckBlockHeader` sets for a header on a block at height `prevHeight`. -/
def headerSwitch (prevHeight : Int) : Globals :=
  halveBlocktime s.toGlobals (prevHeight+1) s.nFirstHalvingHeight

def updateTip (g : Globals) (chainActive : List Blk) : Node Blk where
  toGlobals := halveBlocktime g (chainActive.length-1) A.z2zheight
  nFirstHalvingHeight := A.z2zheight
  chainActive := chainActive

/-- What `DisconnectBlock` sets, for the height of the block below. -/
def resetBlocktime (g : Globals) (nHeight nFirstHalvingHeight : Int) : Globals :=
  if g.ASSETCHAINS_BLOCKTIME≠150 ∧ nHeight<nFirstHalvingHeight then
    {g with ASSETCHAINS_BLOCKTIME := 150} else g

/-- A new process with the chain that the coins database has: the arguments are
read, then `LoadBlockIndexDB` looks at the height of the tip. -/
def loadBlockIndexDB (chainActive : List Blk) : Node Blk where
  ASSETCHAINS_PRIVATE := A.acPrivate || decide (defaultZ2zheight≤(chainActive.length : Int)-1)
  ASSETCHAINS_BLOCKTIME := 150
  nFirstHalvingHeight := defaultZ2zheight
  chainActive := chainActive

end Node

inductive Event (Blk : Type) where
  | connectBlock (block : Blk)
  | disconnectBlock
  | contextualCheckBlockHeader (prevHeight : Int)
  | restart (chainActive : List Blk)

variable (accepts : Globals → List Blk → Blk → Bool) (A : Args)

/-- One event of a node. `accepts` is the verdict of `ConnectBlock` under the
variables in force; the genesis block is never disconnected. -/
def nodeStep (s : Node Blk) : Event Blk → Option (Node Blk)
  | .connectBlock block =>
      let g := s.connectSwitch A
      if accepts g s.chainActive block then some (Node.updateTip A g (block::s.chainActive))
      else some {s with toGlobals := g,nFirstHalvingHeight := A.z2zheight}
  | .disconnectBlock =>
      match s.chainActive with
      | _::b::rest =>
          some (Node.updateTip A
            (Node.resetBlocktime s.toGlobals ((b::rest).length-1) A.z2zheight) (b::rest))
      | _ => none
  | .contextualCheckBlockHeader prevHeight =>
      some {s with toGlobals := s.headerSwitch prevHeight}
  | .restart chainActive => some (Node.loadBlockIndexDB A chainActive)

/-- The rules that belong to a height. -/
def rulesAt (h : Int) : Globals where
  ASSETCHAINS_PRIVATE := decide (A.z2zheight≤h)
  ASSETCHAINS_BLOCKTIME := if A.z2zheight≤h then 75 else 150

/-- The event does not cross the boundary in a way that the variables cannot
follow: the first block of the new rules is connected after a header of them was
checked; no header of the new rules is checked while the chain is below them, and
the variable for their height is up to date; no block below them is disconnected
once the chain was private; and a restart does not take 340000 for their height. -/
def Follows (s : Node Blk) : Event Blk → Prop
  | .connectBlock _ =>
      s.height+1<2^31 ∧ (s.height+1=A.z2zheight → s.ASSETCHAINS_BLOCKTIME=75)
  | .disconnectBlock => s.ASSETCHAINS_PRIVATE=true → A.z2zheight ≤ s.height
  | .contextualCheckBlockHeader prevHeight =>
      (s.nFirstHalvingHeight≤prevHeight+1 → A.z2zheight ≤ s.height+1) ∧
      (prevHeight=s.height → A.z2zheight ≤ s.height+1 →
        s.nFirstHalvingHeight ≤ s.height+1 ∨ s.ASSETCHAINS_BLOCKTIME=75)
  | .restart chainActive =>
      A.acPrivate=false ∧ chainActive≠[] ∧
        (defaultZ2zheight≤(chainActive.length : Int)-1 → A.z2zheight ≤ chainActive.length)

/-- The variables are not ahead of the chain. -/
structure NotAhead (s : Node Blk) : Prop where
  nonempty : s.chainActive≠[]
  priv : s.ASSETCHAINS_PRIVATE=true → A.z2zheight ≤ s.height+1
  blocktime : s.ASSETCHAINS_BLOCKTIME=75 ∨ s.ASSETCHAINS_BLOCKTIME=150
  below : s.height+1<A.z2zheight → s.ASSETCHAINS_BLOCKTIME=150

section Rules

variable {accepts A} {s s' : Node Blk}

theorem halveBlocktime_private (g : Globals) (h z : Int) :
    (halveBlocktime g h z).ASSETCHAINS_PRIVATE=g.ASSETCHAINS_PRIVATE := by
  rw [halveBlocktime]
  split_ifs <;> rfl

theorem halveBlocktime_blocktime (g : Globals) (h z : Int) :
    (halveBlocktime g h z).ASSETCHAINS_BLOCKTIME=
      if z≤h then 75 else g.ASSETCHAINS_BLOCKTIME := by
  rw [halveBlocktime]
  by_cases hz : z≤h <;> by_cases hb : g.ASSETCHAINS_BLOCKTIME=75 <;> simp [hz,hb]

theorem goPrivate_blocktime (g : Globals) (h z : Int) :
    (goPrivate g h z).ASSETCHAINS_BLOCKTIME=g.ASSETCHAINS_BLOCKTIME := by
  rw [goPrivate]
  split_ifs <;> rfl

theorem goPrivate_private {g : Globals} {h z : Int} (hh : 0≤h) (hlt : h<2^31) (hz : 0≤z)
    (hzlt : z<2^31) :
    (goPrivate g h z).ASSETCHAINS_PRIVATE=true ↔ g.ASSETCHAINS_PRIVATE=true ∨ z≤h := by
  have huh : asUnsigned h=h := Int.emod_eq_of_lt hh (by omega)
  have huz : asUnsigned z=z := Int.emod_eq_of_lt hz (by omega)
  rw [goPrivate,huh,huz]
  cases hg : g.ASSETCHAINS_PRIVATE <;> by_cases hle : z≤h <;> simp [hg,hle]

theorem resetBlocktime_private (g : Globals) (h z : Int) :
    (Node.resetBlocktime g h z).ASSETCHAINS_PRIVATE=g.ASSETCHAINS_PRIVATE := by
  rw [Node.resetBlocktime]
  split_ifs <;> rfl

theorem resetBlocktime_blocktime (g : Globals) (h z : Int) :
    (Node.resetBlocktime g h z).ASSETCHAINS_BLOCKTIME=
      if h<z then 150 else g.ASSETCHAINS_BLOCKTIME := by
  rw [Node.resetBlocktime]
  by_cases hz : h<z <;> by_cases hb : g.ASSETCHAINS_BLOCKTIME=150 <;> simp [hz,hb]

theorem NotAhead.height_nonneg (h : NotAhead A s) : 0 ≤ s.height := by
  have hpos := List.length_pos_of_ne_nil h.nonempty
  rw [Node.height]
  omega

/-- Under the variables of `ConnectBlock` the chain is private exactly from the
z2z height on. -/
theorem connectSwitch_private (h : NotAhead A s) (hz : 0≤A.z2zheight) (hzlt : A.z2zheight<2^31)
    (hlt : s.height+1<2^31) :
    (s.connectSwitch A).ASSETCHAINS_PRIVATE=true ↔ A.z2zheight ≤ s.height+1 := by
  have hh := h.height_nonneg
  rw [Node.connectSwitch,halveBlocktime_private,goPrivate_private (by omega) hlt hz hzlt]
  constructor
  · rintro (hp | hle)
    · exact h.priv hp
    · exact hle
  · exact .inr

theorem connectSwitch_blocktime (s : Node Blk) :
    (s.connectSwitch A).ASSETCHAINS_BLOCKTIME=
      if A.z2zheight ≤ s.height then 75 else s.ASSETCHAINS_BLOCKTIME := by
  rw [Node.connectSwitch,halveBlocktime_blocktime,goPrivate_blocktime]

theorem notAhead_connect (hz : 0≤A.z2zheight) (hzlt : A.z2zheight<2^31) (h : NotAhead A s)
    (hlt : s.height+1<2^31) {block : Blk}
    (hstep : nodeStep accepts A s (.connectBlock block)=some s') : NotAhead A s' := by
  have hpriv := connectSwitch_private h hz hzlt hlt
  have htime := connectSwitch_blocktime (A := A) s
  have hbt := h.blocktime
  have hbelow := h.below
  have hheight : ((block::s.chainActive).length : Int)-1=s.height+1 := by
    rw [Node.height,List.length_cons]
    push_cast
    ring
  rw [nodeStep] at hstep
  split at hstep
  · obtain rfl := Option.some.inj hstep
    refine ⟨by simp [Node.updateTip],?_,?_,?_⟩
    · intro hp
      rw [Node.updateTip,halveBlocktime_private] at hp
      change A.z2zheight≤((block::s.chainActive).length : Int)-1+1
      rw [hheight]
      have hle := hpriv.mp hp
      omega
    · change (halveBlocktime _ _ _).ASSETCHAINS_BLOCKTIME=75 ∨
        (halveBlocktime _ _ _).ASSETCHAINS_BLOCKTIME=150
      rw [halveBlocktime_blocktime,htime]
      split_ifs <;> simp [hbt]
    · intro hnext
      change ((block::s.chainActive).length : Int)-1+1<A.z2zheight at hnext
      rw [hheight] at hnext
      change (halveBlocktime _ _ _).ASSETCHAINS_BLOCKTIME=150
      rw [halveBlocktime_blocktime,htime,hheight,if_neg (by omega),if_neg (by omega)]
      exact hbelow (by omega)
  · obtain rfl := Option.some.inj hstep
    refine ⟨h.nonempty,hpriv.mp,?_,?_⟩
    · change (s.connectSwitch A).ASSETCHAINS_BLOCKTIME=75 ∨
        (s.connectSwitch A).ASSETCHAINS_BLOCKTIME=150
      rw [htime]
      split_ifs <;> simp [hbt]
    · intro hnext
      change s.height+1<A.z2zheight at hnext
      change (s.connectSwitch A).ASSETCHAINS_BLOCKTIME=150
      rw [htime,if_neg (by omega)]
      exact hbelow hnext

theorem notAhead_disconnect (h : NotAhead A s)
    (hguard : s.ASSETCHAINS_PRIVATE=true → A.z2zheight ≤ s.height)
    (hstep : nodeStep accepts A s .disconnectBlock=some s') : NotAhead A s' := by
  have hbt := h.blocktime
  cases hchain : s.chainActive with
  | nil => exact absurd hchain h.nonempty
  | cons top below =>
    cases below with
    | nil => simp [nodeStep,hchain] at hstep
    | cons b rest =>
      have hheight : s.height=((b::rest).length : Int)-1+1 := by
        rw [Node.height,hchain]
        simp
      rw [nodeStep,hchain] at hstep
      obtain rfl := Option.some.inj hstep
      refine ⟨by simp [Node.updateTip],?_,?_,?_⟩
      · intro hp
        rw [Node.updateTip,halveBlocktime_private,resetBlocktime_private] at hp
        change A.z2zheight≤((b::rest).length : Int)-1+1
        rw [← hheight]
        exact hguard hp
      · change (halveBlocktime _ _ _).ASSETCHAINS_BLOCKTIME=75 ∨
          (halveBlocktime _ _ _).ASSETCHAINS_BLOCKTIME=150
        rw [halveBlocktime_blocktime,resetBlocktime_blocktime]
        split_ifs with hle hlt
        · exact .inl rfl
        · exact .inr rfl
        · omega
      · intro hnext
        change ((b::rest).length : Int)-1+1<A.z2zheight at hnext
        change (halveBlocktime _ _ _).ASSETCHAINS_BLOCKTIME=150
        rw [halveBlocktime_blocktime,resetBlocktime_blocktime,if_neg (by omega),if_pos (by omega)]

theorem notAhead_step (hz : 0≤A.z2zheight) (hzlt : A.z2zheight<2^31) {e : Event Blk}
    (hguard : Follows A s e) (h : NotAhead A s) (hstep : nodeStep accepts A s e=some s') :
    NotAhead A s' := by
  cases e with
  | connectBlock block => exact notAhead_connect hz hzlt h hguard.1 hstep
  | disconnectBlock => exact notAhead_disconnect h hguard hstep
  | contextualCheckBlockHeader prevHeight =>
    obtain rfl := Option.some.inj hstep
    have hbt := h.blocktime
    refine ⟨h.nonempty,?_,?_,?_⟩
    · intro hp
      change (halveBlocktime _ _ _).ASSETCHAINS_PRIVATE=true at hp
      rw [halveBlocktime_private] at hp
      exact h.priv hp
    · change (halveBlocktime _ _ _).ASSETCHAINS_BLOCKTIME=75 ∨
        (halveBlocktime _ _ _).ASSETCHAINS_BLOCKTIME=150
      rw [halveBlocktime_blocktime]
      split_ifs <;> simp [hbt]
    · intro hnext
      change s.height+1<A.z2zheight at hnext
      change (halveBlocktime _ _ _).ASSETCHAINS_BLOCKTIME=150
      rw [halveBlocktime_blocktime,if_neg]
      · exact h.below hnext
      · intro hle
        have hreached := hguard.1 hle
        omega
  | restart chainActive =>
    obtain ⟨hac,hne,hload⟩ := hguard
    obtain rfl := Option.some.inj hstep
    refine ⟨hne,?_,.inr rfl,fun _ => rfl⟩
    intro hp
    simp only [Node.loadBlockIndexDB,hac,Bool.false_or,decide_eq_true_eq] at hp
    change A.z2zheight≤(chainActive.length : Int)-1+1
    have hle := hload hp
    omega

/-- Under the condition `ConnectBlock` checks a block with the rules of its height. -/
theorem connectSwitch_eq (hz : 0≤A.z2zheight) (hzlt : A.z2zheight<2^31) (h : NotAhead A s)
    {block : Blk} (hguard : Follows A s (.connectBlock block)) :
    s.connectSwitch A=rulesAt A (s.height+1) := by
  have hpriv := connectSwitch_private h hz hzlt hguard.1
  have htime := connectSwitch_blocktime (A := A) s
  have hfield : ∀g g' : Globals,g.ASSETCHAINS_PRIVATE=g'.ASSETCHAINS_PRIVATE →
      g.ASSETCHAINS_BLOCKTIME=g'.ASSETCHAINS_BLOCKTIME → g=g' := by
    rintro ⟨p,t⟩ ⟨p',t'⟩ rfl rfl
    rfl
  apply hfield
  · rw [rulesAt,Bool.eq_iff_iff,hpriv,decide_eq_true_eq]
  · rw [htime,rulesAt]
    by_cases htip : A.z2zheight ≤ s.height
    · rw [if_pos htip,if_pos (by omega)]
    · rw [if_neg htip]
      by_cases hnext : A.z2zheight ≤ s.height+1
      · rw [if_pos hnext]
        exact hguard.2 (by omega)
      · rw [if_neg hnext]
        exact h.below (by omega)

theorem headerSwitch_blocktime (h : NotAhead A s)
    (hguard : Follows A s (.contextualCheckBlockHeader s.height)) :
    (s.headerSwitch s.height).ASSETCHAINS_BLOCKTIME=
      (rulesAt A (s.height+1)).ASSETCHAINS_BLOCKTIME := by
  rw [Node.headerSwitch,halveBlocktime_blocktime,rulesAt]
  by_cases hnext : A.z2zheight ≤ s.height+1
  · rw [if_pos hnext]
    obtain hle | hbt := hguard.2 rfl hnext
    · rw [if_pos hle]
    · simp [hbt]
  · rw [if_neg hnext,if_neg]
    · exact h.below (by omega)
    · intro hle
      exact hnext (hguard.1 hle)

end Rules

/-- The state of a new process that has the genesis block only. -/
def Node.start (genesis : Blk) : Node Blk := Node.loadBlockIndexDB A [genesis]

/-- A history of a node: the events since its first start, all of them within the
condition. -/
structure History (genesis : Blk) (s : Node Blk) : Prop where
  reached : ∃events,run (nodeStep accepts A) events (Node.start A genesis)=some s ∧
    Guarded (nodeStep accepts A) (Follows A) events (Node.start A genesis)

theorem History.notAhead {accepts : Globals → List Blk → Blk → Bool} {A : Args} {genesis : Blk}
    {s : Node Blk} (hz : 0≤A.z2zheight) (hzlt : A.z2zheight<2^31) (hac : A.acPrivate=false)
    (h : History accepts A genesis s) : NotAhead A s := by
  obtain ⟨events,hrun,hguard⟩ := h.reached
  apply run_keeps (I := NotAhead A) _ hrun hguard
  · refine ⟨by simp [Node.start,Node.loadBlockIndexDB],?_,.inr rfl,fun _ => rfl⟩
    intro hp
    simp [Node.start,Node.loadBlockIndexDB,hac,defaultZ2zheight] at hp
  · intro t e t' hfollows hahead hstep
    exact notAhead_step hz hzlt hfollows hahead hstep

/-- A chain that goes private at height 2. -/
def smallArgs : Args := ⟨2,false⟩

/-- The verdict of `CheckTransaction` on the only transaction of a block. -/
def acceptsTx (R : TxRules) (g : Globals) (_ : List CTransaction) (tx : CTransaction) : Bool :=
  (checkTransaction {R with ASSETCHAINS_PRIVATE := g.ASSETCHAINS_PRIVATE} 0 tx).toBool

def openRules : TxRules where
  MAX_MONEY := 1000
  pegscc := false
  ASSETCHAINS_PRIVATE := false
  ASSETCHAINS_TXPOW := 0
  scpublic := fun _ => false
  isNotaryVout := fun _ _ => false
  overwinterActive := fun _ => true
  saplingActive := fun _ => true
  beforeLastCheckpoint := fun _ => false
  checkCoinbaseOpret := fun _ _ => true
  signatureHashThrows := fun _ _ => false
  saplingProofError := fun _ _ => none

/-- Pays 5 from a transparent input to a transparent output. -/
def taddrTx : CTransaction :=
  ⟨7,true,4,SAPLING_VERSION_GROUP_ID,[⟨⟨6,0⟩,[]⟩],[⟨5,[0x51]⟩],0,0,[],[],[]⟩

/-- A transaction with nothing transparent but an empty output. -/
def quietTx (txid : Uint256) : CTransaction :=
  ⟨txid,true,4,SAPLING_VERSION_GROUP_ID,[⟨⟨6,0⟩,[]⟩],[⟨0,[0x51]⟩],0,0,[],[],[]⟩

end Zdeex.Validity
