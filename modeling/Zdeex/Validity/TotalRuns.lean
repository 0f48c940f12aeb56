import Zdeex.Validity.CandidateRuns
import Zdeex.Validity.ChainTotals

namespace Zdeex.Validity

open Zdeex.Framework Zdeex.Block

variable {H : Type} [LinearOrder H]

namespace ChainState

variable {s t : ChainState H} {b h p : H} {queue : List H} {v w : H → Int} {n : Nat}

/-- A value summed over a block and its ancestors. -/
def along (s : ChainState H) (v : H → Int) (h : H) : Int := ((s.lineage h).map v).sum

theorem Linked.along_some (hl : Linked queue s) (hp : s.pprev h=some p) :
    s.along v h=v h+s.along v p := by
  have hline : s.lineage h=h::s.lineage p := hl.grown.lineage_some hp
  rw [along,hline,List.map_cons,List.sum_cons]
  rfl

theorem Linked.along_none (hl : Linked queue s) (hh : h∈Forest.keys s.mapBlockIndex)
    (hp : s.pprev h=none) : s.along v h=v h := by
  have hline : s.lineage h=[h] := hl.grown.lineage_none hh hp
  rw [along,hline,List.map_singleton,List.sum_singleton]

theorem along_congr (hvw : ∀a∈s.lineage h,v a=w a) : s.along v h=s.along w h :=
  congrArg List.sum (List.map_congr_left hvw)

/-- The blocks that the loop links, in its order. -/
def linkOrder : Nat → List H → ChainState H → List H
  | _,[],_ => []
  | 0,_::_,_ => []
  | n+1,pindex::queue,s =>
      pindex::linkOrder n (queue++(s.linkBlock pindex).2) (s.linkBlock pindex).1

/-- The blocks that become linked when the data of `pindexNew` has been stored. -/
def linkedNext (s : ChainState H) (pindexNew : H) : List H :=
  if ∀p∈s.pprev pindexNew,s.nChainTx p≠0 then
    linkOrder (s.mapBlocksUnlinked.length+1) [pindexNew] s
  else []

/-- Linking changes neither statuses nor the numbers of transactions. -/
theorem linkLoop_frame (hrun : linkLoop n queue s=some t) :
    ∀h,t.status h=s.status h ∧ (t.index h).nTx=(s.index h).nTx := by
  induction n generalizing queue s with
  | zero =>
    cases queue with
    | nil =>
      obtain rfl := Option.some.inj hrun
      exact fun h => ⟨rfl,rfl⟩
    | cons b queue => cases hrun
  | succ n ih =>
    cases queue with
    | nil =>
      obtain rfl := Option.some.inj hrun
      exact fun h => ⟨rfl,rfl⟩
    | cons b queue =>
      intro h
      have hrest := ih hrun h
      rw [status_link,nTx_link] at hrest
      exact hrest

end ChainState

open ChainState

/-- Where the chain of the parent has none of a statistic, the chain of the block that
was linked before has none of it either. -/
def Following (prev : H → Option H) (sum : Stat → H → Int) : Option H → List H → Prop
  | _,[] => True
  | last,b::bs => (∀p∈prev b,∀a∈last,∀x,sum x p=0 → sum x a=0) ∧ Following prev sum (some b) bs

namespace TotalState

variable {fZindex : Bool} {s t : TotalState H} {b h p : H} {queue : List H} {n : Nat}

def sumStat (s : TotalState H) (x : Stat) (h : H) : Int :=
  s.chain.along (fun a => (s.stat a x : Int)) h

def sumSaplingValue (s : TotalState H) (h : H) : Int := s.chain.along s.nSaplingValue h

/-- The sums fit into the types of the totals. -/
structure Fits (s : TotalState H) : Prop where
  tx : ∀h,s.chain.total h<2^32
  sapling : ∀h,-2^63 ≤ s.sumSaplingValue h ∧ s.sumSaplingValue h<2^63
  stat : ∀x h,s.sumStat x h<2^63

/-- The totals of the linked blocks are sums, and the record is that of a linked
block. -/
structure Summed (fZindex : Bool) (s : TotalState H) : Prop where
  sapling : ∀h,s.chain.nChainTx h≠0 → s.nChainSaplingValue h=some (s.sumSaplingValue h)
  stat : fZindex=true → ∀h,s.chain.nChainTx h≠0 → ∀x,s.nChainStat h x=s.sumStat x h
  record : (s.zblock=none ∧ ∀x,s.zstats x=0) ∨
    ∃a,s.zblock=some a ∧ s.chain.nChainTx a≠0 ∧ ∀x,s.zstats x=s.sumStat x a

theorem int64_of_bounds {x : Int} (hlo : -2^63≤x) (hhi : x<2^63) : int64 x=x :=
  Int.bmod_eq_of_le (by omega) (by omega)

omit [LinearOrder H] in
theorem sumStat_nonneg (s : TotalState H) [LinearOrder H] (x : Stat) (h : H) : 0 ≤ s.sumStat x h := by
  apply List.sum_nonneg
  intro y hy
  obtain ⟨a,-,rfl⟩ := List.mem_map.mp hy
  exact Int.natCast_nonneg _

theorem Fits.int64_stat (hf : Fits s) (x : Stat) (h : H) : int64 (s.sumStat x h)=s.sumStat x h := by
  have hlo := s.sumStat_nonneg x h
  exact int64_of_bounds (by omega) (hf.stat x h)

theorem Fits.int64_sapling (hf : Fits s) (h : H) :
    int64 (s.sumSaplingValue h)=s.sumSaplingValue h :=
  int64_of_bounds (hf.sapling h).1 (hf.sapling h).2

section Link

/-- Nothing is loaded into the totals of a parent as long as the order is right. -/
theorem loadZstats_eq (hl : Linked (b::queue) s.chain) (hs : Summed fZindex s)
    (hz : fZindex=true)
    (hlast : ∀p∈s.chain.pprev b,∀a∈s.zblock,∀x,s.sumStat x p=0 → s.sumStat x a=0) :
    s.loadZstats (s.chain.pprev b)=s := by
  cases hp : s.chain.pprev b with
  | none => rfl
  | some p =>
    have hlinked := (hl.queued b List.mem_cons_self).2.2 p hp
    have hsame : (fun x => if s.nChainStat p x=0 then s.zstats x else s.nChainStat p x)=
        s.nChainStat p := by
      funext x
      split_ifs with hzero
      · rw [hzero]
        rcases hs.record with ⟨-,hnone⟩ | ⟨a,ha,-,hrecord⟩
        · exact hnone x
        · rw [hs.stat hz p hlinked] at hzero
          rw [hrecord]
          exact hlast p hp a ha x hzero
      · rfl
    rw [loadZstats,hsame,Function.update_eq_self]

/-- The own statistics of a block are added to those of its parent. -/
theorem sumStats_self (hl : Linked (b::queue) s.chain) (hs : Summed fZindex s) (hf : Fits s)
    (hz : fZindex=true) (x : Stat) : (s.sumStats b).zstats x=s.sumStat x b := by
  obtain ⟨hdata,-,hparent⟩ := hl.queued b List.mem_cons_self
  rw [sumStats]
  dsimp only
  cases hp : s.chain.pprev b with
  | none =>
    dsimp only
    rw [Int.zero_add,← hf.int64_stat,sumStat,hl.along_none (hl.mem_keys_of_data hdata) hp]
  | some p =>
    dsimp only
    rw [hs.stat hz p (hparent p hp),← hf.int64_stat x b]
    apply congrArg int64
    rw [sumStat,sumStat,hl.along_some hp,Int.add_comm]

theorem sumSapling_self (hl : Linked (b::queue) s.chain) (hs : Summed fZindex s) (hf : Fits s) :
    (s.sumSapling b).nChainSaplingValue b=some (s.sumSaplingValue b) := by
  obtain ⟨hdata,-,hparent⟩ := hl.queued b List.mem_cons_self
  rw [sumSapling]
  dsimp only
  rw [Function.update_self]
  cases hp : s.chain.pprev b with
  | none =>
    rw [sumSaplingValue,hl.along_none (hl.mem_keys_of_data hdata) hp]
  | some p =>
    dsimp only
    rw [hs.sapling p (hparent p hp),Option.map_some,← hf.int64_sapling b]
    apply congrArg (fun v => some (int64 v))
    rw [sumSaplingValue,sumSaplingValue,hl.along_some hp,Int.add_comm]

/-- What a pass leaves alone, and the Sapling totals after it. -/
theorem link_frame (fZindex : Bool) (s : TotalState H) (b : H) :
    (s.linkBlock fZindex b).stat=s.stat ∧
    (s.linkBlock fZindex b).nSaplingValue=s.nSaplingValue ∧
    (s.linkBlock fZindex b).nChainSaplingValue=(s.sumSapling b).nChainSaplingValue := by
  cases fZindex with
  | false => exact ⟨rfl,rfl,rfl⟩
  | true =>
    rw [linkBlock,if_pos rfl]
    cases hp : s.chain.pprev b with
    | none => exact ⟨rfl,rfl,rfl⟩
    | some p => exact ⟨rfl,rfl,rfl⟩

theorem sumStat_link (fZindex : Bool) (s : TotalState H) (b : H) (x : Stat) (h : H) :
    (s.linkBlock fZindex b).sumStat x h=s.sumStat x h := by
  rw [sumStat,sumStat,(link_frame fZindex s b).1]
  rfl

theorem sumSaplingValue_link (fZindex : Bool) (s : TotalState H) (b h : H) :
    (s.linkBlock fZindex b).sumSaplingValue h=s.sumSaplingValue h := by
  rw [sumSaplingValue,sumSaplingValue,(link_frame fZindex s b).2.1]
  rfl

/-- One pass of the loop. -/
theorem Summed.link (hs : Summed fZindex s) (hl : Linked (b::queue) s.chain) (hf : Fits s)
    (hlast : fZindex=true → ∀p∈s.chain.pprev b,∀a∈s.zblock,∀x,s.sumStat x p=0 → s.sumStat x a=0) :
    Summed fZindex (s.linkBlock fZindex b) := by
  have hself := nChainTx_link_self hl (hf.tx b)
  have hb : (s.chain.linkBlock b).1.nChainTx b≠0 := by omega
  have hold : ∀h,h≠b → (s.linkBlock fZindex b).chain.nChainTx h≠0 → s.chain.nChainTx h≠0 := by
    intro h hne hh
    have hlinked : (s.chain.linkBlock b).1.nChainTx h≠0 := hh
    rw [nChainTx_link_of_ne hne] at hlinked
    exact hlinked
  refine ⟨?_,?_,?_⟩
  · intro h hh
    rw [sumSaplingValue_link,(link_frame fZindex s b).2.2]
    by_cases hne : h=b
    · rw [hne]
      exact sumSapling_self hl hs hf
    · rw [sumSapling]
      dsimp only
      rw [Function.update_of_ne hne]
      exact hs.sapling h (hold h hne hh)
  · intro hz h hh x
    subst hz
    rw [sumStat_link,linkBlock,if_pos rfl,loadZstats_eq hl hs rfl (hlast rfl)]
    change Function.update s.nChainStat b (s.sumStats b).zstats h x=s.sumStat x h
    by_cases hne : h=b
    · rw [hne,Function.update_self]
      exact sumStats_self hl hs hf rfl x
    · rw [Function.update_of_ne hne]
      exact hs.stat rfl h (hold h hne hh) x
  · cases fZindex with
    | false =>
      rcases hs.record with hnone | ⟨a,ha,hlinked,hrecord⟩
      · exact .inl hnone
      · exact .inr ⟨a,ha,(hl.nChainTx_mono hlinked).2,hrecord⟩
    | true =>
      rw [linkBlock,if_pos rfl,loadZstats_eq hl hs rfl (hlast rfl)]
      exact .inr ⟨b,rfl,hb,sumStats_self hl hs hf rfl⟩

theorem Fits.link (hf : Fits s) (b : H) : Fits (s.linkBlock fZindex b) := by
  refine ⟨?_,?_,?_⟩
  · intro h
    change (s.chain.linkBlock b).1.total h<2^32
    rw [total_link]
    exact hf.tx h
  · intro h
    rw [sumSaplingValue_link]
    exact hf.sapling h
  · intro x h
    rw [sumStat_link]
    exact hf.stat x h

/-- The loop links what the loop of the block index links. -/
theorem linkLoop_chain (n : Nat) (queue : List H) (s : TotalState H) :
    (linkLoop fZindex n queue s).map chain=ChainState.linkLoop n queue s.chain := by
  induction n generalizing queue s with
  | zero =>
    cases queue with
    | nil => rfl
    | cons b queue => rfl
  | succ n ih =>
    cases queue with
    | nil => rfl
    | cons b queue => exact ih _ _

theorem zblock_link (s : TotalState H) (b : H) : (s.linkBlock true b).zblock=some b := rfl

/-- The whole loop. -/
theorem linkLoop_sums (hrun : linkLoop fZindex n queue s=some t) (hs : Summed fZindex s)
    (hl : Linked queue s.chain) (hf : Fits s)
    (horder : fZindex=true →
      Following s.chain.pprev s.sumStat s.zblock (linkOrder n queue s.chain)) :
    Summed fZindex t ∧ Fits t := by
  induction n generalizing queue s with
  | zero =>
    cases queue with
    | nil =>
      obtain rfl := Option.some.inj hrun
      exact ⟨hs,hf⟩
    | cons b queue => cases hrun
  | succ n ih =>
    cases queue with
    | nil =>
      obtain rfl := Option.some.inj hrun
      exact ⟨hs,hf⟩
    | cons b queue =>
      have hlast : fZindex=true →
          ∀p∈s.chain.pprev b,∀a∈s.zblock,∀x,s.sumStat x p=0 → s.sumStat x a=0 :=
        fun hz => (horder hz).1
      refine ih hrun (hs.link hl hf hlast) (hl.link (hf.tx b)) (hf.link b) ?_
      intro hz
      have hsum : (s.linkBlock fZindex b).sumStat=s.sumStat := by
        funext x h
        exact sumStat_link fZindex s b x h
      subst hz
      rw [hsum,zblock_link]
      exact (horder rfl).2

end Link

section Arrive

variable {vtx : List CTransaction}

/-- The data of a block that is not linked changes no sum over a linked chain. -/
theorem along_store (hl : Linked queue s.chain) (hd : (s.chain.status b).haveData=false)
    {v w : H → Int} (hvw : ∀a,a≠b → w a=v a) (hh : s.chain.nChainTx h≠0) :
    s.chain.along w h=s.chain.along v h := by
  apply along_congr
  intro a ha
  apply hvw a
  rintro rfl
  exact hl.lineage_linked hh a ha (hl.nChainTx_eq_zero hd)

theorem sumStat_store (hl : Linked queue s.chain) (hd : (s.chain.status b).haveData=false)
    (hh : s.chain.nChainTx h≠0) (x : Stat) :
    (s.storeBlock fZindex b vtx).sumStat x h=s.sumStat x h := by
  refine along_store hl hd ?_ hh
  intro a hne
  cases fZindex with
  | false => rfl
  | true =>
    change ((Function.update s.stat b (countBlock vtx) a x : Nat) : Int)=_
    rw [Function.update_of_ne hne]

theorem sumSaplingValue_store (hl : Linked queue s.chain)
    (hd : (s.chain.status b).haveData=false) (hh : s.chain.nChainTx h≠0) :
    (s.storeBlock fZindex b vtx).sumSaplingValue h=s.sumSaplingValue h := by
  refine along_store hl hd ?_ hh
  intro a hne
  exact Function.update_of_ne hne _ _

theorem Summed.store (hs : Summed fZindex s) (hl : Linked queue s.chain)
    (hd : (s.chain.status b).haveData=false) :
    Summed fZindex (s.storeBlock fZindex b vtx) := by
  have hcount : ∀h,(s.storeBlock fZindex b vtx).chain.nChainTx h=s.chain.nChainTx h :=
    hl.nChainTx_store hd
  refine ⟨?_,?_,?_⟩
  · intro h hh
    rw [hcount] at hh
    have hne : h≠b := by
      rintro rfl
      exact hh (hl.nChainTx_eq_zero hd)
    rw [sumSaplingValue_store hl hd hh,← hs.sapling h hh]
    exact Function.update_of_ne hne _ _
  · intro hz h hh x
    rw [hcount] at hh
    rw [sumStat_store hl hd hh]
    exact hs.stat hz h hh x
  · rcases hs.record with hnone | ⟨a,ha,hlinked,hrecord⟩
    · exact .inl hnone
    · refine .inr ⟨a,ha,?_,?_⟩
      · rw [hcount]
        exact hlinked
      · intro x
        rw [sumStat_store hl hd hlinked]
        exact hrecord x

theorem received_chain (fZindex : Bool) (s : TotalState H) (b : H) (vtx : List CTransaction) :
    (s.receivedBlockTransactions fZindex b vtx).map chain=
      s.chain.receivedBlockTransactions b vtx.length := by
  rw [receivedBlockTransactions,ChainState.receivedBlockTransactions]
  have hprev : (s.storeBlock fZindex b vtx).chain.pprev b=
    (s.chain.storeBlock b vtx.length).pprev b := rfl
  rw [hprev]
  cases (s.chain.storeBlock b vtx.length).pprev b with
  | none => exact linkLoop_chain _ _ _
  | some p =>
    change Option.map chain (ite ((s.chain.storeBlock b vtx.length).nChainTx p≠0) _ _)=ite _ _ _
    split_ifs with hlinked hvalid hvalid' hvalid'
    · exact linkLoop_chain _ _ _
    · rfl
    · exact absurd hvalid hvalid'
    · exact absurd hvalid' hvalid
    · rfl

/-- What holds between the arrivals. -/
structure Settled (fZindex : Bool) (s : TotalState H) : Prop where
  linked : Linked [] s.chain
  chosen : Chosen s.chain
  summed : Summed fZindex s
  unmarked : ∀h,(s.chain.status h).failed=false
  bare : ∀h,(s.chain.status h).haveData=false → (s.chain.index h).nTx=0
  tx : ∀h,s.chain.nChainTx h≠0 → s.chain.total h<2^32
  sapling : ∀h,s.chain.nChainTx h≠0 → -2^63 ≤ s.sumSaplingValue h ∧ s.sumSaplingValue h<2^63

/-- The caller stores each block once, the sums fit, and with `-zindex` the blocks that
become linked follow each other. -/
structure Orderly (fZindex : Bool) (s : TotalState H) (hash : H) (vtx : List CTransaction) :
    Prop where
  known : hash∈Forest.keys s.chain.mapBlockIndex
  once : (s.chain.status hash).haveData=false
  full : vtx≠[]
  fits : Fits (s.storeBlock fZindex hash vtx)
  order : fZindex=true →
    Following s.chain.pprev (s.storeBlock fZindex hash vtx).sumStat s.zblock
      ((s.storeBlock fZindex hash vtx).chain.linkedNext hash)

/-- The sums after the arrival of a block. -/
theorem received_sums (hs : Settled fZindex s) (ho : Orderly fZindex s b vtx)
    (hrun : s.receivedBlockTransactions fZindex b vtx=some t)
    (hstored : Linked [b] (s.storeBlock fZindex b vtx).chain ∨
      ¬∀p∈(s.storeBlock fZindex b vtx).chain.pprev b,
        (s.storeBlock fZindex b vtx).chain.nChainTx p≠0) :
    Summed fZindex t ∧ Fits t := by
  have hstore : Summed fZindex (s.storeBlock fZindex b vtx) :=
    hs.summed.store hs.linked ho.once
  have hlink : (∀p∈(s.storeBlock fZindex b vtx).chain.pprev b,
        (s.storeBlock fZindex b vtx).chain.nChainTx p≠0) →
      linkLoop fZindex ((s.storeBlock fZindex b vtx).chain.mapBlocksUnlinked.length+1) [b]
        (s.storeBlock fZindex b vtx)=some t → Summed fZindex t ∧ Fits t := by
    intro hparents hloop
    refine linkLoop_sums hloop hstore (hstored.resolve_right (not_not_intro hparents)) ho.fits ?_
    intro hz
    have horder := ho.order hz
    rw [linkedNext,if_pos hparents] at horder
    exact horder
  rw [receivedBlockTransactions] at hrun
  cases hp : (s.storeBlock fZindex b vtx).chain.pprev b with
  | none =>
    rw [hp] at hrun hlink
    exact hlink (fun p hno => by cases hno) hrun
  | some p =>
    rw [hp] at hrun hlink
    dsimp only at hrun
    split_ifs at hrun with hlinked hvalid
    · apply hlink _ hrun
      intro q hq
      obtain rfl := Option.some.inj hq
      exact hlinked
    · obtain rfl := Option.some.inj hrun
      exact ⟨⟨hstore.sapling,hstore.stat,hstore.record⟩,⟨ho.fits.tx,ho.fits.sapling,ho.fits.stat⟩⟩
    · obtain rfl := Option.some.inj hrun
      exact ⟨hstore,ho.fits⟩

/-- An arrival changes the status and the size of the stored block only. -/
theorem received_frame {c d : ChainState H} {m : Nat}
    (hrun : c.receivedBlockTransactions b m=some d) :
    ∀h,d.status h=(c.storeBlock b m).status h ∧
      (d.index h).nTx=((c.storeBlock b m).index h).nTx := by
  rw [ChainState.receivedBlockTransactions] at hrun
  cases hp : (c.storeBlock b m).pprev b with
  | none =>
    rw [hp] at hrun
    exact linkLoop_frame hrun
  | some p =>
    rw [hp] at hrun
    dsimp only at hrun
    split_ifs at hrun with hlinked hvalid
    · exact linkLoop_frame hrun
    · obtain rfl := Option.some.inj hrun
      exact fun h => ⟨rfl,rfl⟩
    · obtain rfl := Option.some.inj hrun
      exact fun h => ⟨rfl,rfl⟩

theorem Settled.received (hs : Settled fZindex s) (ho : Orderly fZindex s b vtx) :
    ∃t,s.receivedBlockTransactions fZindex b vtx=some t ∧ Settled fZindex t := by
  have hpos : 0<vtx.length := List.length_pos_iff.mpr ho.full
  obtain ⟨d,hd,hlinked,hchosen⟩ := received_ok hs.linked hs.chosen ho.known ho.once
    (hs.unmarked b) hpos (fun p _ => .inr (hs.unmarked p)) ho.fits.tx
  have hmap := received_chain fZindex s b vtx
  rw [hd] at hmap
  obtain ⟨t,ht,hchain⟩ := Option.map_eq_some_iff.mp hmap
  subst hchain
  have hstored : Linked [b] (s.storeBlock fZindex b vtx).chain ∨
      ¬∀p∈(s.storeBlock fZindex b vtx).chain.pprev b,
        (s.storeBlock fZindex b vtx).chain.nChainTx p≠0 := by
    by_cases hparents : ∀p∈(s.storeBlock fZindex b vtx).chain.pprev b,
        (s.storeBlock fZindex b vtx).chain.nChainTx p≠0
    · refine .inl (hs.linked.store (u := s.chain.mapBlocksUnlinked) ho.once ho.known
        (hs.unmarked b) hpos (.inl List.mem_cons_self) (fun p h hmem => .inl hmem)
        (fun x hx => hx) hs.linked.unlinkedOnce ?_ (List.nodup_singleton b))
      intro h hh
      refine ⟨List.mem_singleton.mp hh,?_⟩
      intro p hp
      have hnz := hparents p hp
      have hcount : (s.storeBlock fZindex b vtx).chain.nChainTx p=s.chain.nChainTx p :=
        hs.linked.nChainTx_store ho.once p
      rw [hcount] at hnz
      exact hnz
    · exact .inr hparents
  obtain ⟨hsummed,hfits⟩ := received_sums hs ho ht hstored
  have hframe := received_frame hd
  obtain ⟨hdata,hfailed,-⟩ := received_status (hs.unmarked b)
  refine ⟨t,ht,hlinked,hchosen,hsummed,?_,?_,fun h _ => hfits.tx h,fun h _ => hfits.sapling h⟩
  · intro h
    rw [(hframe h).1]
    by_cases hne : h=b
    · rw [hne,ChainState.status,index_store_self]
      exact hfailed
    · rw [ChainState.status,index_store_of_ne hne]
      exact hs.unmarked h
  · intro h hh
    rw [(hframe h).1] at hh
    rw [(hframe h).2]
    by_cases hne : h=b
    · rw [hne,ChainState.status,index_store_self] at hh
      change ((s.chain.status b|||BLOCK_HAVE_DATA).raiseValidity
        BLOCK_VALID_TRANSACTIONS).haveData=false at hh
      rw [hdata] at hh
      cases hh
    · rw [ChainState.status,index_store_of_ne hne] at hh
      rw [index_store_of_ne hne]
      exact hs.bare h hh

/-- A header becomes a leaf without data, unless it is there already. -/
theorem add_cases (c : ChainState H) (hash hashPrevBlock : H) (nBits : BitVec 32) :
    c.addToBlockIndex hash hashPrevBlock nBits=c ∨
    ∃q e,hash∉Forest.keys c.mapBlockIndex ∧
      c.addToBlockIndex hash hashPrevBlock nBits=c.withLeaf hash q e ∧
      e.nTx=0 ∧ e.nChainTx=0 ∧ e.nStatus=Status.raiseValidity 0 BLOCK_VALID_TREE := by
  by_cases hnew : hash∈Forest.keys c.mapBlockIndex
  · exact .inl (if_pos hnew)
  · exact .inr ⟨_,_,hnew,if_neg hnew,rfl,rfl,rfl⟩

theorem Settled.add (hs : Settled fZindex s) (hash hashPrevBlock : H) (nBits : BitVec 32) :
    Settled fZindex {s with chain := s.chain.addToBlockIndex hash hashPrevBlock nBits} := by
  obtain ⟨hlinked,hchosen⟩ := add_ok hs.linked hs.chosen hash hashPrevBlock nBits
  rcases add_cases s.chain hash hashPrevBlock nBits with hold | ⟨q,e,hnew,hleaf,htx,hzero,hstatus⟩
  · rw [hold]
    exact hs
  · rw [hleaf] at hlinked hchosen ⊢
    have hne : ∀h,(s.chain.withLeaf hash q e).nChainTx h≠0 → h≠hash := by
      rintro h hh rfl
      rw [ChainState.nChainTx,index_leaf_self] at hh
      exact hh hzero
    have hold : ∀h,(s.chain.withLeaf hash q e).nChainTx h≠0 → s.chain.nChainTx h≠0 := by
      intro h hh
      rw [nChainTx_leaf_of_ne (hne h hh)] at hh
      exact hh
    have halong : ∀h v,(s.chain.withLeaf hash q e).nChainTx h≠0 →
        (s.chain.withLeaf hash q e).along v h=s.chain.along v h := by
      intro h v hh
      rw [along,along,lineage_leaf_of_ne (hne h hh)]
    have htotal : ∀h,(s.chain.withLeaf hash q e).nChainTx h≠0 →
        (s.chain.withLeaf hash q e).total h=s.chain.total h := by
      intro h hh
      rw [← (hlinked.linked h hh).2.1,nChainTx_leaf_of_ne (hne h hh)]
      exact (hs.linked.linked h (hold h hh)).2.1
    obtain ⟨-,hfailed,hdata⟩ := tree_status
    refine ⟨hlinked,hchosen,⟨?_,?_,?_⟩,?_,?_,?_,?_⟩
    · intro h hh
      change _=some ((s.chain.withLeaf hash q e).along s.nSaplingValue h)
      rw [halong h _ hh]
      exact hs.summed.sapling h (hold h hh)
    · intro hz h hh x
      change _=(s.chain.withLeaf hash q e).along (fun a => (s.stat a x : Int)) h
      rw [halong h _ hh]
      exact hs.summed.stat hz h (hold h hh) x
    · rcases hs.summed.record with hnone | ⟨a,ha,hal,hrecord⟩
      · exact .inl hnone
      · have hane : a≠hash := hs.linked.ne_leaf hnew hal
        have hal' : (s.chain.withLeaf hash q e).nChainTx a≠0 := by
          rw [nChainTx_leaf_of_ne hane]
          exact hal
        refine .inr ⟨a,ha,hal',?_⟩
        intro x
        change _=(s.chain.withLeaf hash q e).along (fun a => (s.stat a x : Int)) a
        rw [halong a _ hal']
        exact hrecord x
    · intro h
      change ((s.chain.withLeaf hash q e).status h).failed=false
      by_cases hh : h=hash
      · rw [hh,ChainState.status,index_leaf_self,hstatus]
        exact hfailed
      · rw [status_leaf_of_ne hh]
        exact hs.unmarked h
    · intro h hd
      change ((s.chain.withLeaf hash q e).index h).nTx=0
      by_cases hh : h=hash
      · rw [hh,index_leaf_self]
        exact htx
      · have hd' : ((s.chain.withLeaf hash q e).status h).haveData=false := hd
        rw [status_leaf_of_ne hh] at hd'
        rw [index_leaf_of_ne hh]
        exact hs.bare h hd'
    · intro h hh
      change (s.chain.withLeaf hash q e).total h<2^32
      rw [htotal h hh]
      exact hs.tx h (hold h hh)
    · intro h hh
      change -2^63≤(s.chain.withLeaf hash q e).along s.nSaplingValue h ∧
        (s.chain.withLeaf hash q e).along s.nSaplingValue h<2^63
      rw [halong h _ hh]
      exact hs.sapling h (hold h hh)

theorem settled_empty : Settled fZindex (empty : TotalState H) := by
  have hzero : ∀h : H,(empty : TotalState H).chain.nChainTx h≠0 → False := fun h hh => hh rfl
  refine ⟨linked_empty,chosen_empty,⟨?_,?_,.inl ⟨rfl,fun _ => rfl⟩⟩,?_,fun _ _ => rfl,?_,?_⟩
  · exact fun h hh => (hzero h hh).elim
  · exact fun _ h hh => (hzero h hh).elim
  · intro h
    change Status.failed 0=false
    decide
  · exact fun h hh => (hzero h hh).elim
  · exact fun h hh => (hzero h hh).elim

end Arrive

/-- What an arrival has to respect. -/
def Admits (fZindex : Bool) (s : TotalState H) : TotalOp H → Prop
  | .addToBlockIndex _ _ _ => True
  | .receivedBlockTransactions hash vtx => Orderly fZindex s hash vtx

theorem Settled.step (hs : Settled fZindex s) {op : TotalOp H} (hop : Admits fZindex s op) :
    ∃t,totalStep fZindex s op=some t ∧ Settled fZindex t := by
  cases op with
  | addToBlockIndex hash hashPrevBlock nBits => exact ⟨_,rfl,hs.add hash hashPrevBlock nBits⟩
  | receivedBlockTransactions hash vtx =>
    rw [totalStep,if_pos ⟨among_iff.mpr hop.known,hop.once,hop.full⟩]
    exact hs.received hop

end TotalState

end Zdeex.Validity
