import Zdeex.Block.Transaction

namespace Zdeex.Pow.SegIds

open Zdeex.Block Zdeex.Coins

/-- What `hush_segid` finds on a node. A block of the active chain stands for its index entry;
`stray` is what the array for the address holds before it is written, and `beforeOutputs` what
a negative index reads. -/
structure Node where
  chainActive : List Uint256
  hushBlockload : Uint256 → Option (List CTransaction)
  getTransaction : Uint256 → Option CTransaction
  extractDestination : List UInt8 → Option (List UInt8)
  vcalcSha256 : List UInt8 → BitVec 256
  stray : Int → List UInt8
  beforeOutputs : CTxOut

variable (N : Node)

def hushChainactive (height : Int) : Option Uint256 :=
  if height<0 then none else N.chainActive[height.toNat]?

/-- `hush_txtime` without its time: the value of an output and its address. -/
def hushTxtime (height : Int) (hash : Uint256) (n : Int) : Int × List UInt8 :=
  match N.getTransaction hash with
  | none => (0,N.stray height)
  | some tx =>
      if n<tx.vout.length then
        let out := if n<0 then N.beforeOutputs else tx.vout.getD n.toNat N.beforeOutputs
        (out.nValue,(N.extractDestination out.scriptPubKey).getD (N.stray height))
      else (0,N.stray height)

/-- The address of the last transaction of a block that returns one output to the address it came
from. -/
def stakingAddress (height : Int) (pindex : Uint256) : Option (List UInt8) := do
  let vtx ← N.hushBlockload pindex
  if vtx.length≤1 then none
  else
    let last ← vtx.getLast?
    match last.vin,last.vout with
    | [txin],[out] =>
        let (value,destaddr) := hushTxtime N height txin.prevout.hash
          (BitVec.ofNat 32 txin.prevout.n).toInt
        let voutaddr ← N.extractDestination out.scriptPubKey
        if destaddr=voutaddr ∧ out.nValue=value then some voutaddr else none
    | _,_ => none

def hushSegid32 (coinaddr : List UInt8) : BitVec 32 := (N.vcalcSha256 coinaddr).setWidth 32

/-- `hush_segid` with the ids that the index entries hold; an id is an `int8_t`. -/
def hushSegid (segid : Uint256 → BitVec 8) (nocache : Bool) (height : Int) :
    BitVec 8 × (Uint256 → BitVec 8) :=
  if height>0 then
    match hushChainactive N height with
    | none => (-1,segid)
    | some pindex =>
        if nocache=false ∧ (segid pindex).toInt≥-1 then (segid pindex,segid)
        else
          match stakingAddress N height pindex with
          | none => (-1,segid)
          | some voutaddr =>
              let id := (hushSegid32 N voutaddr &&& 0x3f).setWidth 8
              (id,Function.update segid pindex id)
  else (-1,segid)

/-- The static buffer of `hush_segids`, and the ids in the index entries. -/
structure Memo where
  prevhashbuf : List (BitVec 8)
  prevheight : Int
  segid : Uint256 → BitVec 8

def Memo.start : Memo := ⟨List.replicate 100 0,0,fun _ => -2⟩

/-- The loop that fills the buffer. -/
def segidLoop (segid : Uint256 → BitVec 8) (height : Int) (n : Nat) :
    List (BitVec 8) × (Uint256 → BitVec 8) :=
  (List.range n).foldl (fun r (i : Nat) =>
    let q := hushSegid N r.2 true (height+i)
    (r.1++[q.1],q.2)) ([],segid)

def hushSegids (s : Memo) (height : Int) (n : Nat) : List (BitVec 8) × Memo :=
  if height=s.prevheight ∧ n=100 then (s.prevhashbuf,s)
  else
    let r := segidLoop N s.segid height n
    (r.1,if n=100 then ⟨r.1,height,r.2⟩ else {s with segid := r.2})

/-- A change of the active chain, and the calls that other code makes. -/
inductive Event where
  | tip (N : Node)
  | segid (nocache : Bool) (height : Int)
  | segids (height : Int) (n : Nat)

structure State where
  node : Node
  memo : Memo

def State.step (s : State) : Event → State
  | .tip N => {s with node := N}
  | .segid nocache height =>
      {s with memo := {s.memo with segid := (hushSegid s.node s.memo.segid nocache height).2}}
  | .segids height n => {s with memo := (hushSegids s.node s.memo height n).2}

variable {N : Node} {s : State} {height : Int}

/-- `hush_segid(1, height)`, whatever the index entries hold. -/
def currentSegid (N : Node) (height : Int) : BitVec 8 := (hushSegid N (fun _ => -2) true height).1

theorem hushSegid_nocache (segid : Uint256 → BitVec 8) (height : Int) :
    (hushSegid N segid true height).1=currentSegid N height := by
  unfold currentSegid hushSegid
  split_ifs with hpos
  · cases hushChainactive N height with
    | none => rfl
    | some pindex =>
      dsimp only
      rw [if_neg (by simp),if_neg (by simp)]
      cases stakingAddress N height pindex <;> rfl
  · rfl

/-- The ids of a hundred heights. -/
def window (N : Node) (height : Int) (n : Nat) : List (BitVec 8) :=
  (List.range n).map fun i => currentSegid N (height+(i : Nat))

theorem segidLoop_eq (segid : Uint256 → BitVec 8) (height : Int) (n : Nat) :
    (segidLoop N segid height n).1=window N height n := by
  unfold segidLoop window
  induction n with
  | zero => rfl
  | succ n ih =>
    rw [List.range_succ,List.foldl_append,List.map_append,← ih]
    simp [hushSegid_nocache]

/-- The height and the node of the last call that computed a hundred ids; a first call for height 0
does not. -/
def lastComputed (h : Node × Option (Int × Node)) : Event → Node × Option (Int × Node)
  | .tip N => (N,h.2)
  | .segid _ _ => h
  | .segids height n =>
      if n=100 ∧ height≠h.2.elim 0 Prod.fst then (h.1,some (height,h.1)) else h

/-- The call computes, or nothing has changed since the last one that did. -/
def UpToDate (N : Node) (height : Int) : Option (Int × Node) → Prop
  | none => height≠0
  | some (height₀,N₀) => height≠height₀ ∨
      ∀i<100,currentSegid N₀ (height+(i : Nat))=currentSegid N (height+(i : Nat))

/-- The static buffer is what the last computing call found. -/
structure Remembers (s : State) (h : Node × Option (Int × Node)) : Prop where
  node : s.node=h.1
  prevheight : s.memo.prevheight=h.2.elim 0 Prod.fst
  prevhashbuf : s.memo.prevhashbuf=h.2.elim (List.replicate 100 0) fun p => window p.2 p.1 100

theorem Remembers.step {h : Node × Option (Int × Node)} (hs : Remembers s h) (e : Event) :
    Remembers (s.step e) (lastComputed h e) := by
  cases e with
  | tip N => exact ⟨rfl,hs.prevheight,hs.prevhashbuf⟩
  | segid nocache height => exact ⟨hs.node,hs.prevheight,hs.prevhashbuf⟩
  | segids height n =>
    have hsame : height=s.memo.prevheight ↔ height=h.2.elim 0 Prod.fst := by rw [hs.prevheight]
    unfold State.step lastComputed hushSegids
    dsimp only
    by_cases hn : n=100
    · by_cases hheight : height=s.memo.prevheight
      · rw [if_pos ⟨hheight,hn⟩,if_neg fun hcon => hcon.2 (hsame.mp hheight)]
        exact hs
      · rw [if_neg fun hcon => hheight hcon.1,if_pos hn,if_pos ⟨hn,fun hcon => hheight (hsame.mpr hcon)⟩]
        refine ⟨hs.node,rfl,?_⟩
        dsimp only
        rw [segidLoop_eq,hn,hs.node]
        rfl
    · rw [if_neg fun hcon => hn hcon.2,if_neg hn,if_neg fun hcon => hn hcon.1]
      exact ⟨hs.node,hs.prevheight,hs.prevhashbuf⟩

theorem run_remembers {h : Node × Option (Int × Node)} (hs : Remembers s h) (events : List Event) :
    Remembers (events.foldl State.step s) (events.foldl lastComputed h) := by
  induction events generalizing s h with
  | nil => exact hs
  | cons e events ih => exact ih (hs.step e)

theorem window_eq_iff (N₀ : Node) (height : Int) : window N₀ height 100=window N height 100 ↔
    ∀i<100,currentSegid N₀ (height+(i : Nat))=currentSegid N (height+(i : Nat)) := by
  unfold window
  rw [List.map_inj_left]
  simp only [List.mem_range]

/-- No block at height 0 has an id, and the buffer starts with zeros. -/
theorem start_differs (N : Node) : List.replicate 100 0≠window N 0 100 := by
  intro h
  have hfirst := congrArg List.head? h
  cases hfirst

/-- After every run of changes of the chain and of calls, `hush_segids` returns the ids of the
current chain exactly when it computes them or they are those of its last computation. -/
theorem segids_current_iff (N : Node) (events : List Event) (height : Int) :
    let s := events.foldl State.step ⟨N,.start⟩
    (hushSegids s.node s.memo height 100).1=
        (List.range 100).map (fun i => (hushSegid s.node s.memo.segid true (height+(i : Nat))).1) ↔
      UpToDate s.node height (events.foldl lastComputed (N,none)).2 := by
  intro s
  have hs : Remembers s (events.foldl lastComputed (N,none)) :=
    run_remembers ⟨rfl,rfl,rfl⟩ events
  have hfresh : (List.range 100).map (fun i =>
      (hushSegid s.node s.memo.segid true (height+(i : Nat))).1)=window s.node height 100 := by
    simp only [hushSegid_nocache]
    rfl
  rw [hfresh]
  unfold hushSegids
  generalize (events.foldl lastComputed (N,none))=h at hs
  obtain ⟨N',last⟩ := h
  cases last with
  | none =>
    have hheight : s.memo.prevheight=0 := hs.prevheight
    have hbuf : s.memo.prevhashbuf=List.replicate 100 0 := hs.prevhashbuf
    rw [hheight,hbuf]
    change _ ↔ height≠0
    by_cases hzero : height=0
    · rw [if_pos ⟨hzero,rfl⟩,hzero]
      exact iff_of_false (start_differs _) (fun hne => hne rfl)
    · rw [if_neg fun hcon => hzero hcon.1]
      exact iff_of_true (segidLoop_eq _ _ _) hzero
  | some p =>
    obtain ⟨height₀,N₀⟩ := p
    have hheight : s.memo.prevheight=height₀ := hs.prevheight
    have hbuf : s.memo.prevhashbuf=window N₀ height₀ 100 := hs.prevhashbuf
    rw [hheight,hbuf]
    change _ ↔ height≠height₀ ∨ _
    by_cases hsame : height=height₀
    · subst hsame
      rw [if_pos ⟨rfl,rfl⟩,window_eq_iff]
      exact (or_iff_right fun hne => hne rfl).symm
    · rw [if_neg fun hcon => hsame hcon.1]
      exact iff_of_true (segidLoop_eq _ _ _) (.inl hsame)

def plainTx (prevout : COutPoint) : CTransaction :=
  ⟨prevout.hash,false,1,0,[⟨prevout,[]⟩],[⟨5,[1]⟩],0,0,[],[],[]⟩

/-- The block at height 1 is staked. -/
def stakedNode : Node where
  chainActive := [0,1]
  hushBlockload h := if h=1 then some [plainTx ⟨0,0⟩,plainTx ⟨7,0⟩] else some [plainTx ⟨0,0⟩]
  getTransaction _ := some (plainTx ⟨7,0⟩)
  extractDestination script := some script
  vcalcSha256 _ := 9
  stray _ := []
  beforeOutputs := ⟨0,[]⟩

/-- The first call, for height 0, returns the zeros that the buffer starts with; and after the staked
block is replaced its id is still returned. -/
theorem stale_segids :
    (hushSegids stakedNode .start 0 100).1≠
        (List.range 100).map (fun i => (hushSegid stakedNode (fun _ => -2) true (0+(i : Nat))).1) ∧
      let s := [Event.segids 1 100,.tip {stakedNode with chainActive := [0,2]}].foldl State.step
        ⟨stakedNode,.start⟩
      (hushSegids s.node s.memo 1 100).1≠
        (List.range 100).map (fun i => (hushSegid s.node s.memo.segid true (1+(i : Nat))).1) := by
  decide +kernel

end Zdeex.Pow.SegIds
