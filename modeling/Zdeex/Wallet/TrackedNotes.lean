import Zdeex.Wallet.ChainNotifications

namespace Zdeex.Wallet.WitnessCache

open Zdeex.Framework
open Zdeex.Merkle (HashClass IncrementalMerkleTree IncrementalWitness)
open Zdeex.Merkle.IncrementalMerkleTree (Represents)

theorem one_le_depth : 1≤SAPLING_INCREMENTAL_MERKLE_TREE_DEPTH := by decide

section Leaves

variable {H : Type} {O : HashClass Uint256} {L : Ledger H} {chain : List (CBlockIndex H)}

theorem Ledger.leaves_append (xs ys : List (CBlockIndex H)) :
    L.leaves (xs++ys)=L.leaves xs++L.leaves ys := List.flatMap_append

theorem Ledger.leaves_take_succ {k : Nat} {b : CBlockIndex H} (hb : chain[k]?=some b) :
    L.leaves (chain.take (k+1))=L.leaves (chain.take k)++L.commitments b.hash := by
  rw [List.take_add_one,hb,leaves_append]
  simp [leaves]

theorem Ledger.length_leaves_take (chain : List (CBlockIndex H)) (k : Nat) :
    (L.leaves (chain.take k)).length≤(L.leaves chain).length := by
  have hsplit := L.leaves_append (chain.take k) (chain.drop k)
  rw [List.take_append_drop] at hsplit
  rw [hsplit,List.length_append]
  omega

theorem Ledger.represents_saplingTree
    (hroom : (L.leaves chain).length≤2^SAPLING_INCREMENTAL_MERKLE_TREE_DEPTH) :
    Represents O (L.saplingTree O chain) (L.leaves chain) := by
  obtain ⟨t,ht,hrep⟩ := (Represents.empty (O := O)).appendAll one_le_depth (L.leaves chain)
    (by simpa using hroom)
  rw [saplingTree,ht]
  exact hrep

end Leaves

section Append

variable {O : HashClass Uint256}

/-- A witness in step with the tree of these leaves. -/
abbrev InStep (O : HashClass Uint256) (v : SaplingWitness) (l : List Uint256) : Prop :=
  v.Tracks O SAPLING_INCREMENTAL_MERKLE_TREE_DEPTH l

theorem appendFront_inStep (hO : O.Lawful) {v : SaplingWitness} {ws : List SaplingWitness}
    {l : List Uint256} (hv : InStep O v l)
    (hroom : l.length<2^SAPLING_INCREMENTAL_MERKLE_TREE_DEPTH) (cm : Uint256) :
    Returns (fun ws' => ∃v',ws'=v'::ws ∧ InStep O v' (l++[cm])) (appendFront O (v::ws) cm) := by
  obtain ⟨v',happend,hv'⟩ := hv.append hO one_le_depth hroom cm
  have hw : appendWitness O v cm=.ok v' := by
    unfold appendWitness
    rw [happend]
  unfold appendFront
  refine Meets.bind (G := fun front => front=v) rfl fun front hfront => ?_
  rw [hfront,hw]
  exact ⟨v',rfl,hv'⟩

theorem appendAll_inStep (hO : O.Lawful) {v : SaplingWitness} (ws : List SaplingWitness)
    {l cms : List Uint256} (hv : InStep O v l)
    (hroom : (l++cms).length≤2^SAPLING_INCREMENTAL_MERKLE_TREE_DEPTH) :
    Returns (fun ws' => ∃v',ws'=v'::ws ∧ InStep O v' (l++cms))
      (cms.foldlM (appendFront O) (v::ws)) := by
  refine Meets.foldlM (I := fun done ws' => ∃v',ws'=v'::ws ∧ InStep O v' (l++done))
    ⟨v,rfl,by simpa using hv⟩ ?_
  rintro done cm rest _ rfl ⟨v',rfl,hv'⟩
  rw [← List.append_assoc]
  refine appendFront_inStep hO hv' ?_ cm
  simp only [List.length_append,List.length_cons] at hroom ⊢
  omega

end Append

section Scan

variable {H : Type} [LinearOrder H] {O : HashClass Uint256} {L : Ledger H}

/-- In the scan of a block: the tree, until the note is found, and then its witness. -/
def Scanned (O : HashClass Uint256) (l : List Uint256)
    (s : SaplingMerkleTree × List SaplingWitness) : Prop :=
  (s.2=[] ∧ Represents O s.1 l) ∨ ∃v,s.2=[v] ∧ InStep O v l

theorem scanOutput_scanned (hO : O.Lawful) (op : SaplingOutPoint H) (tx : H) {l : List Uint256}
    {s : SaplingMerkleTree × List SaplingWitness} (hs : Scanned O l s)
    (hroom : l.length<2^SAPLING_INCREMENTAL_MERKLE_TREE_DEPTH) (e : OutputDescription × Nat) :
    Returns (Scanned O (l++[e.1.cm])) (scanOutput O op tx s e) := by
  obtain ⟨tree,ws⟩ := s
  rcases hs with ⟨rfl,hrep⟩ | ⟨v,rfl,hv⟩
  · obtain ⟨t,happend,hrep'⟩ := hrep.append one_le_depth hroom e.1.cm
    have ht : appendTree O tree e.1.cm=.ok t := by
      unfold appendTree
      rw [happend]
    rw [scanOutput,if_neg (by simp),ht]
    by_cases hop : op=⟨tx,e.2⟩
    · refine .inr ⟨t.witness,?_,IncrementalWitness.tracks_witness hrep' (by simp)⟩
      exact if_pos hop
    · exact .inl ⟨if_neg hop,hrep'⟩
  · rw [scanOutput,if_pos (List.cons_ne_nil _ _)]
    refine (appendFront_inStep hO hv hroom e.1.cm).bind fun ws' hws' => ?_
    exact .inr hws'

theorem scanTx_scanned (hO : O.Lawful) (op : SaplingOutPoint H) (tx : H) {l : List Uint256}
    {s : SaplingMerkleTree × List SaplingWitness} (hs : Scanned O l s)
    (hroom : (l++(L.vShieldedOutput tx).map OutputDescription.cm).length≤
      2^SAPLING_INCREMENTAL_MERKLE_TREE_DEPTH) :
    Returns (Scanned O (l++(L.vShieldedOutput tx).map OutputDescription.cm))
      (scanTx O L op s tx) := by
  have hcms : (L.vShieldedOutput tx).map OutputDescription.cm=
      (L.vShieldedOutput tx).zipIdx.map fun e => e.1.cm := by
    conv_lhs => rw [← List.zipIdx_map_fst 0 (L.vShieldedOutput tx),List.map_map]
    rfl
  rw [hcms] at hroom ⊢
  unfold scanTx
  refine Meets.foldlM (I := fun done s => Scanned O
    (l++done.map fun e : OutputDescription × Nat => e.1.cm) s)
    (by simpa using hs) ?_
  intro done e rest t hl ht
  rw [List.map_append,← List.append_assoc]
  refine scanOutput_scanned hO op tx ht ?_ e
  rw [hl] at hroom
  simp only [List.length_append,List.map_append,List.map_cons,List.length_cons] at hroom ⊢
  omega

theorem scanBlock_scanned (hO : O.Lawful) (op : SaplingOutPoint H) (block : H)
    {l : List Uint256} {tree : SaplingMerkleTree} (htree : Represents O tree l)
    (hroom : (l++L.commitments block).length≤2^SAPLING_INCREMENTAL_MERKLE_TREE_DEPTH) :
    Returns (Scanned O (l++L.commitments block)) (scanBlock O L op block tree) := by
  unfold scanBlock Ledger.commitments at *
  refine Meets.foldlM (I := fun done s => Scanned O (l++done.flatMap fun tx =>
    (L.vShieldedOutput tx).map OutputDescription.cm) s) (.inl ⟨rfl,by simpa using htree⟩) ?_
  intro done tx rest t hl ht
  rw [List.flatMap_append,List.flatMap_singleton,← List.append_assoc]
  refine scanTx_scanned hO op tx ht ?_
  rw [hl] at hroom
  simp only [List.length_append,List.flatMap_append,List.flatMap_cons] at hroom ⊢
  omega

end Scan

section Tracked

variable {H K : Type} {O : HashClass Uint256} {L : Ledger H} {reorg longest longest' c h : Nat}
variable {chain : List (CBlockIndex H)} {nd : SaplingNoteData K}

/-- The witnesses of a note that is confirmed at the height `c` are those of consecutive
blocks up to the height `h`. They begin at `c`, unless the cache was full once. -/
structure Tracked (O : HashClass Uint256) (L : Ledger H) (reorg longest : Nat)
    (chain : List (CBlockIndex H)) (c h : Nat) (nd : SaplingNoteData K) : Prop where
  height : nd.witnessHeight=h
  below : h<chain.length
  nonempty : nd.witnesses≠[]
  start : c+nd.witnesses.length≤h+1
  full : c+nd.witnesses.length=h+1 ∨ h+1+(reorg+10)≤nd.witnesses.length+longest
  inStep : ∀i v,nd.witnesses[i]?=some v → InStep O v (L.leaves (chain.take (h+1-i)))

theorem Tracked.connect (ht : Tracked O L reorg longest chain c h nd) (b : CBlockIndex H)
    (hl : longest≤longest') : Tracked O L reorg longest' (chain++[b]) c h nd := by
  have hbelow := ht.below
  refine ⟨ht.height,?_,ht.nonempty,ht.start,ht.full.imp_right fun hf => by omega,?_⟩
  · rw [List.length_append]
    omega
  · intro i v hv
    rw [List.take_append_of_le_length (by omega)]
    exact ht.inStep i v hv

theorem Tracked.disconnect (ht : Tracked O L reorg longest chain c h nd)
    (hh : h<chain.length-1) : Tracked O L reorg longest chain.dropLast c h nd := by
  refine ⟨ht.height,by rwa [List.length_dropLast],ht.nonempty,ht.start,ht.full,?_⟩
  intro i v hv
  rw [List.dropLast_eq_take,List.take_take,min_eq_left (by omega)]
  exact ht.inStep i v hv

/-- The last block goes with its witness. -/
theorem Tracked.pop (ht : Tracked O L reorg longest chain c h nd) (hlen : 1<nd.witnesses.length)
    (hh : chain.length=h+1) :
    Tracked O L reorg longest chain.dropLast c (h-1)
      {nd with witnesses := nd.witnesses.tail,witnessHeight := (h : Int)-1} := by
  have hstart := ht.start
  have hfull := ht.full
  refine ⟨?_,?_,?_,?_,?_,?_⟩
  · dsimp only
    omega
  · rw [List.length_dropLast]
    omega
  · refine List.ne_nil_of_length_pos ?_
    rw [List.length_tail]
    omega
  · rw [List.length_tail]
    omega
  · rw [List.length_tail]
    omega
  · intro i v hv
    dsimp only at hv
    rw [List.getElem?_tail] at hv
    have hi : h-1+1-i=h+1-(i+1) := by omega
    rw [List.dropLast_eq_take,List.take_take,min_eq_left (by omega),hi]
    exact ht.inStep (i+1) v hv

/-- The newest witness has the root that the header of its block has. -/
theorem Tracked.root (hO : O.Lawful) (hchain : ValidChain O L chain)
    (ht : Tracked O L reorg longest chain c h nd) (hc : 0<c) :
    nd.witnesses.head?.map (rootOf O)=chain[h]?.map CBlockIndex.hashFinalSaplingRoot := by
  have hbelow := ht.below
  have hstart := ht.start
  have hroom := (L.length_leaves_take chain (h+1)).trans hchain.room
  obtain ⟨v,ws,hws⟩ := List.exists_cons_of_ne_nil ht.nonempty
  have hlen : 0<nd.witnesses.length := List.length_pos_iff.mpr ht.nonempty
  have hv : InStep O v (L.leaves (chain.take (h+1))) := ht.inStep 0 v (by rw [hws]; rfl)
  have hb : chain[h]?=some chain[h] := List.getElem?_eq_getElem hbelow
  rw [hws,List.head?_cons,Option.map_some,hb,Option.map_some,
    hchain.roots h hbelow (by omega) _ hb]
  refine congrArg some ((hv.root_eq hO one_le_depth hroom).trans ?_)
  exact ((L.represents_saplingTree hroom).root_eq hO one_le_depth hroom).symm

end Tracked

section Notes

variable {H K A F P : Type} [LinearOrder H] [LinearOrder K]
variable {C : NoteCrypto K A F P} {O : HashClass Uint256} {L : Ledger H} {N : Node H}
variable {reorg longest c h : Nat} {chain : List (CBlockIndex H)} {nd : SaplingNoteData K}

omit [LinearOrder H] in
theorem Node.Serves.getElem? (hN : N.Serves O L chain) {k : Nat} {b : CBlockIndex H}
    (hb : chain[k]?=some b) : N.chainActive[k]?=some b := by
  obtain ⟨rest,hrest⟩ := hN.active
  have hlt := (List.getElem?_eq_some_iff.mp hb).1
  rw [← hrest,List.getElem?_append_left hlt]
  exact hb

omit [LinearOrder K] in
/-- The witness that is set anew ends at the block of the note. -/
theorem setInitialWitness_tracked (hO : O.Lawful) (hchain : ValidChain O L chain)
    (hN : N.Serves O L chain) (op : SaplingOutPoint H) {b : CBlockIndex H}
    (hb : chain[c]?=some b) (hc : 0<c) (nd : SaplingNoteData K) :
    Returns (fun nd' => nd'.witnesses≠[] → Tracked O L reorg longest chain c c nd')
      (setInitialWitness O L N op c nd) := by
  have hlt := (List.getElem?_eq_some_iff.mp hb).1
  have hprev : chain[c-1]?=some chain[c-1] := List.getElem?_eq_getElem (by omega)
  have hpred : ((c : Int)-1)=(c-1 : Nat) := by omega
  have htree : (N.getSaplingAnchorAt chain[c-1].hashFinalSaplingRoot).getD .new=
      L.saplingTree O (chain.take c) := by
    rw [hN.anchors (c-1) (by omega) _ hprev,Nat.sub_add_cancel hc]
  have hroom := (L.length_leaves_take chain (c+1)).trans hchain.room
  have hroom' := (L.length_leaves_take chain c).trans hchain.room
  have hscan := scanBlock_scanned hO op b.hash (L.represents_saplingTree (O := O) hroom')
    (by rwa [← L.leaves_take_succ hb])
  rw [← L.leaves_take_succ hb] at hscan
  unfold setInitialWitness
  rw [blockAt_spec (hN.getElem? hb),hpred,blockAt_spec (hN.getElem? hprev)]
  refine Meets.bind (G := fun b' => b'=b) rfl fun b' hb' => ?_
  refine Meets.bind (G := fun b' => b'=chain[c-1]) rfl fun pprev hpprev => ?_
  subst hb' hpprev
  dsimp only
  rw [htree]
  split_ifs
  · refine hscan.bind fun s hs hne => ?_
    obtain ⟨hnil,-⟩ | ⟨v,hv,hin⟩ := hs
    · exact absurd hnil hne
    · have hone : ∀i v',[v][i]?=some v' → i=0 ∧ v'=v := by
        intro i v' h
        cases i with
        | zero => exact ⟨rfl,(Option.some.inj h).symm⟩
        | succ i => cases h
      refine ⟨rfl,hlt,hne,?_,.inl ?_,fun i v' hi => ?_⟩
      · dsimp only
        rw [hv,List.length_singleton]
      · dsimp only
        rw [hv,List.length_singleton]
      · dsimp only at hi
        rw [hv] at hi
        obtain ⟨rfl,rfl⟩ := hone i v' hi
        exact hin
  · exact Meets.error id

omit [LinearOrder H] [LinearOrder K] in
/-- The block loop brings a note to the height of the block, if it was not there. -/
theorem extendNote_tracked (hO : O.Lawful) (hchain : ValidChain O L chain)
    (hreorg : N.MAX_REORG_LENGTH=reorg) (hlong : chain.length≤longest) {n : Nat}
    {b : CBlockIndex H} (hb : chain[n]?=some b) {nf : Uint256} (hn : nd.nullifier=some nf)
    (hdepth : N.getSaplingSpendDepth nf≤N.WITNESS_CACHE_SIZE)
    (ht : Tracked O L reorg longest chain c h nd) (hnh : n≤h+1) :
    Returns (fun nd' => nd'.nullifier=nd.nullifier ∧
      ∃h',n≤h' ∧ Tracked O L reorg longest chain c h' nd') (extendNote O L N b.hash n nd) := by
  have hlt := (List.getElem?_eq_some_iff.mp hb).1
  have hheight := ht.height
  unfold extendNote
  rw [hn]
  dsimp only
  by_cases hat : nd.witnessHeight=(n : Int)-1
  · have hh : n=h+1 := by omega
    subst hh
    rw [if_pos ⟨hat,hdepth⟩]
    obtain ⟨v,ws,hws⟩ := List.exists_cons_of_ne_nil ht.nonempty
    rw [hws]
    refine Meets.bind (G := fun witness => witness=v) rfl fun witness hwitness => ?_
    subst hwitness
    have hsize : N.WITNESS_CACHE_SIZE=reorg+9+1 := by
      rw [Node.WITNESS_CACHE_SIZE,hreorg]
    rw [hsize,List.take_succ_cons]
    have hv : InStep O witness (L.leaves (chain.take (h+1))) :=
      ht.inStep 0 witness (by rw [hws]; rfl)
    have hroom := (L.length_leaves_take chain (h+1+1)).trans hchain.room
    rw [L.leaves_take_succ hb] at hroom
    refine (appendAll_inStep hO ((witness::ws).take (reorg+9)) hv hroom).bind
      fun ws' hws' => ⟨hn.symm ▸ rfl,h+1,le_rfl,?_⟩
    obtain ⟨v',rfl,hv'⟩ := hws'
    have hlen : (v'::(witness::ws).take (reorg+9)).length=
        min (reorg+10) (nd.witnesses.length+1) := by
      rw [List.length_cons,List.length_take,hws,List.length_cons]
      omega
    have hstart := ht.start
    have hfull := ht.full
    refine ⟨rfl,hlt,List.cons_ne_nil _ _,?_,?_,?_⟩
    · dsimp only
      rw [hlen]
      omega
    · dsimp only
      rw [hlen]
      omega
    · intro i v'' hi
      dsimp only at hi
      cases i with
      | zero =>
        obtain rfl := Option.some.inj hi
        rw [Nat.sub_zero,L.leaves_take_succ hb]
        exact hv'
      | succ i =>
        rw [List.getElem?_cons_succ,List.getElem?_take,← hws] at hi
        split_ifs at hi
        have hi' : h+1+1-(i+1)=h+1-i := by omega
        rw [hi']
        exact ht.inStep i v'' hi
  · rw [if_neg fun hcon => hat hcon.1]
    exact ⟨hn,h,by omega,ht⟩

end Notes

end Zdeex.Wallet.WitnessCache
