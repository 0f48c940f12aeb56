import Zdeex.Block.IndexRuns

namespace Zdeex.Block

open Zdeex.Framework
open Zdeex.Coins

variable {Tree : Type} (R : BlockRules Tree) (K : PubKeys)
  (checksum : Uint256 → List Byte → Uint256) (B : Set Uint256)

def txidsOf (chain : List CBlock) : Set Uint256 :=
  {txid | ∃block∈chain,∃tx∈block.vtx,tx.hash=txid}

/-- What the rest of the node sees to when a block is connected: ids are not used twice on
a chain, versions and heights fit their types, note commitments come after Sapling and
lead to new roots, and burns that are imported are apart from the coins of the chain. -/
structure SoundBlock (chain : List CBlock) (v : View Tree) (block : CBlock) : Prop where
  txs : ∀tx∈block.vtx,tx.nVersion<2^31 ∧ Apart R B tx
  nodup : (block.vtx.map CTransaction.hash).Nodup
  fresh : ∀tx∈block.vtx,tx.hash∉txidsOf chain
  height : chain.length<2^31
  root : FreshRoot R block v
  outputs : R.saplingActive chain.length=false → ∀tx∈block.vtx,tx.vShieldedOutput=[]
  genesis : block.hash=R.hashGenesisBlock → chain=[] ∧
    (R.saplingActive 0=true → block.hashFinalSaplingRoot=R.trees.emptyRoot)

/-- Sapling stays active, and the empty tree has the empty root. -/
structure SoundRules (emptyTree : Tree) : Prop where
  sapling : ∀h,R.saplingActive h=true → R.saplingActive (h+1)=true
  root : R.trees.root emptyTree=R.trees.emptyRoot

/-- The states that connecting the blocks of a chain one by one goes through. -/
inductive Chained (start : ChainState Tree) : List CBlock → ChainState Tree → Prop
  | nil : Chained start [] start
  | cons {chain : List CBlock} {block : CBlock} {s s' : ChainState Tree} :
      Chained start chain s → SoundBlock R B chain s.view block →
      connectTip R K checksum block s=some s' → Chained start (block::chain) s'

section Chained

variable {R K checksum B} {start s s' : ChainState Tree} {chain : List CBlock}

theorem Chained.unique (h : Chained R K checksum B start chain s)
    (h' : Chained R K checksum B start chain s') : s=s' := by
  induction h generalizing s' with
  | nil =>
    cases h'
    rfl
  | cons hs hsound hconn ih =>
    cases h' with
    | cons hs₁ hsound₁ hconn₁ =>
      obtain rfl := ih hs₁
      exact Option.some.inj (hconn.symm.trans hconn₁)

theorem Chained.chain_eq (h : Chained R K checksum B start chain s) (hstart : start.chain=[]) :
    s.chain=chain := by
  induction h with
  | nil => exact hstart
  | cons hs hsound hconn ih =>
    obtain ⟨-,-,-,-,-,hchain⟩ := connectTip_some hconn
    rw [hchain,ih]

/-- They are the states of a run that only connects. -/
theorem Chained.run_eq (h : Chained R K checksum B start chain s) :
    run (chainStep R K checksum) (chain.reverse.map ChainOp.connect) start=some s := by
  induction h with
  | nil => rfl
  | @cons chain block s s' hs hsound hconn ih =>
    rw [List.reverse_cons,List.map_append,run_append,ih]
    simp [run,chainStep,hconn]

end Chained

section Sound

variable {R K checksum B} {emptyTree : Tree} {sproutRoot : Uint256} {chain : List CBlock}
  {s : ChainState Tree}

/-- The view and the indexes of a chain that was only connected. -/
structure Grown (chain : List CBlock) (s : ChainState Tree) : Prop where
  stored : s.view.Stored
  roots : ∀rt tree,s.view.anchors rt=some tree → R.trees.root tree=rt
  anchor : s.view.bestSaplingAnchor=
    match tipIndex chain with
    | none => R.trees.emptyRoot
    | some p => parentAnchor R p
  keys : KeysIn (txidsOf chain) s.index

theorem grown_start (hR : SoundRules R emptyTree) :
    Grown (R := R) [] (.start R.trees emptyTree sproutRoot) := by
  refine ⟨fun _ => stored_clear,?_,rfl,⟨fun k hk => absurd rfl hk,fun k hk => absurd rfl hk⟩⟩
  intro rt tree h
  dsimp only [ChainState.start] at h
  by_cases heq : rt=R.trees.emptyRoot
  · subst heq
    rw [Function.update_self] at h
    obtain rfl := Option.some.inj h
    exact hR.root
  · rw [Function.update_of_ne heq] at h
    cases h

theorem KeysIn.mono {txids txids' : Set Uint256} {index : IndexDb} (h : KeysIn txids index)
    (hsub : txids⊆txids') : KeysIn txids' index :=
  ⟨fun k hk => hsub (h.address k hk),fun k hk => hsub (h.unspent k hk)⟩

theorem txidsOf_subset_cons (block : CBlock) (chain : List CBlock) :
    txidsOf chain⊆txidsOf (block::chain) := by
  rintro txid ⟨b,hb,tx,htx,rfl⟩
  exact ⟨b,by simp [hb],tx,htx,rfl⟩

theorem mem_txidsOf_cons {block : CBlock} {chain : List CBlock} {tx : CTransaction}
    (h : tx∈block.vtx) : tx.hash∈txidsOf (block::chain) := ⟨block,by simp,tx,h,rfl⟩

/-- The best anchor after a block is the root of its tree. -/
theorem bestSaplingAnchor_finishBlock (block : CBlock) (v : View Tree) (cs : ConnectState Tree) :
    (finishBlock R block v cs).view.bestSaplingAnchor=R.trees.root cs.saplingTree := by
  dsimp only [finishBlock,View.pushAnchor]
  split_ifs with hsame
  · exact hsame
  · rfl

theorem roots_finishBlock {block : CBlock} {v : View Tree} {cs : ConnectState Tree}
    (h : ∀rt tree,cs.view.anchors rt=some tree → R.trees.root tree=rt) :
    ∀rt tree,(finishBlock R block v cs).view.anchors rt=some tree → R.trees.root tree=rt := by
  intro rt tree hrt
  dsimp only [finishBlock,View.pushAnchor] at hrt
  split_ifs at hrt
  · exact h rt tree hrt
  · dsimp only at hrt
    by_cases heq : rt=R.trees.root cs.saplingTree
    · subst heq
      rw [Function.update_self] at hrt
      obtain rfl := Option.some.inj hrt
      rfl
    · rw [Function.update_of_ne heq] at hrt
      exact h rt tree hrt

theorem tipIndex_height {chain : List CBlock} {p : CBlockIndex} (h : tipIndex chain=some p) :
    (chain.length : Int)=p.nHeight+1 := by
  have hheight := tipIndex_cons_some h
  omega

theorem tipIndex_range {chain : List CBlock} {p : CBlockIndex} (h : tipIndex chain=some p)
    (hlen : chain.length<2^31) : 0≤p.nHeight ∧ p.nHeight+1<2^31 := by
  cases chain with
  | nil => cases h
  | cons block rest =>
    obtain rfl := Option.some.inj h
    rw [List.length_cons] at hlen
    dsimp only
    omega

theorem Grown.connect (hR : SoundRules R emptyTree) (hs : Grown (R := R) chain s)
    (hchain : s.chain=chain) {block : CBlock} (hsound : SoundBlock R B chain s.view block)
    {s' : ChainState Tree} (h : connectTip R K checksum block s=some s') :
    Grown (R := R) (block::chain) s' := by
  obtain ⟨a,ha,hview,hindex,-,-⟩ := connectTip_some h
  rw [hchain] at ha
  obtain ⟨hchecked,-,notarypay,-,⟨hgenesis,rfl⟩ | ⟨hne,hconn⟩⟩ := connectBlock_ok R ha
  · obtain ⟨rfl,hzero⟩ := hsound.genesis hgenesis
    refine ⟨?_,?_,?_,?_⟩
    · rw [hview]
      exact hs.stored
    · rw [hview]
      exact hs.roots
    · rw [hview]
      refine hs.anchor.trans ?_
      dsimp only [tipIndex,parentAnchor]
      split_ifs with hactive
      · exact (hzero hactive).symm
      · rfl
    · rw [hindex]
      exact (hs.keys.mono (txidsOf_subset_cons block [])).connect _ (DeltaIn.empty _)
  · obtain ⟨hprev,tree,cs,hbody,rfl⟩ := connectTransactions_ok R hconn
    obtain ⟨p,hp⟩ := Option.ne_none_iff_exists'.mp hprev
    obtain ⟨undos,htrace⟩ := connectTxs_ok R hbody.txs
    have hheight := tipIndex_height hp
    have htip := htrace.sameTip R
    rw [hp] at ha
    obtain ⟨undo,hundo⟩ := connectBlock_undo R ha hne
    obtain ⟨hstored,-,-⟩ := connectBlock_stored R ha hundo hs.stored
      (tipIndex_range hp hsound.height) fun tx htx => (hsound.txs tx htx).1
    have hrootsv : ∀rt tree,cs.view.anchors rt=some tree → R.trees.root tree=rt := by
      rw [htip.anchors]
      exact hs.roots
    refine ⟨?_,?_,?_,?_⟩
    · rw [hview]
      exact hstored
    · rw [hview]
      exact roots_finishBlock hrootsv
    · rw [hview,bestSaplingAnchor_finishBlock]
      dsimp only [tipIndex,parentAnchor]
      split_ifs with hactive
      · rw [← childHeight_tipIndex] at hactive
        exact (hbody.root hactive).symm
      · rw [Bool.not_eq_true] at hactive
        have hnone := hsound.outputs hactive
        have htree := htrace.tree R
        have hempty : block.vtx.flatMap CTransaction.vShieldedOutput=[] := by
          rw [List.flatMap_eq_nil_iff]
          exact hnone
        rw [hempty] at htree
        obtain rfl := Option.some.inj htree
        have hbefore : R.saplingActive p.nHeight=false := by
          by_contra hne'
          rw [Bool.not_eq_false] at hne'
          have hlater := hR.sapling _ hne'
          rw [← hheight,hactive] at hlater
          cases hlater
        have hbest := hs.anchor
        rw [hp] at hbest
        dsimp only [parentAnchor] at hbest
        rw [hbefore] at hbest
        rw [hs.roots _ _ hbody.anchor]
        exact hbest
    · rw [hindex]
      apply (hs.keys.mono (txidsOf_subset_cons block chain)).connect
      exact htrace.deltaIn R (fun tx htx => mem_txidsOf_cons htx) (DeltaIn.empty _)

theorem Chained.grown (hR : SoundRules R emptyTree)
    (h : Chained R K checksum B (.start R.trees emptyTree sproutRoot) chain s) :
    Grown (R := R) chain s := by
  induction h with
  | nil => exact grown_start hR
  | cons hs hsound hconn ih => exact ih.connect hR (hs.chain_eq rfl) hsound hconn

end Sound

section Runs

/-- Undo data on file are those of connecting the block to its own chain. -/
def FilesOf (start : ChainState Tree) (files : List CBlock → Option (List Byte)) : Prop :=
  ∀block chain file,files (block::chain)=some file →
    ∃s a undo,Chained R K checksum B start chain s ∧ SoundBlock R B chain s.view block ∧
      connectBlock R (tipIndex chain) block s.view=.ok a ∧ a.undo=some undo ∧
      file=undoWriteToDisk K checksum s.view.bestBlock undo

/-- The state of a node agrees with connecting only the blocks of its active chain. -/
structure OnActiveChain (start s : ChainState Tree) : Prop where
  replayed : ∃ref,Chained R K checksum B start s.chain ref ∧ Twins B s.view ref.view ∧
    s.index=ref.index
  files : FilesOf R K checksum B start s.undoFiles

/-- What a call must meet: a block that is connected is sound, and what a disconnected
block spent has no address. -/
def indexGuard (s : ChainState Tree) : ChainOp → Prop
  | .connect block => SoundBlock R B s.chain s.view block
  | .disconnect => ∀file undo,s.undoFiles s.chain=some file →
      undoReadFromDisk K checksum (((tipIndex s.chain.tail).map CBlockIndex.hashBlock).getD 0) file=
        some undo →
      ∀t∈undo.vtxundo,∀u∈t.vprevout,(R.getAddressType u.txout.scriptPubKey).1=0

variable {R K checksum B} {emptyTree : Tree} {sproutRoot : Uint256}

theorem SoundBlock.of_sameTip {chain : List CBlock} {v w : View Tree} {block : CBlock}
    (h : SoundBlock R B chain v block) (htip : v.SameTip w) : SoundBlock R B chain w block := by
  refine ⟨h.txs,h.nodup,h.fresh,h.height,?_,h.outputs,h.genesis⟩
  unfold FreshRoot
  rw [← htip.bestSaplingAnchor,← htip.anchors]
  exact h.root

theorem FilesOf.store {start : ChainState Tree} {files : List CBlock → Option (List Byte)}
    (h : FilesOf R K checksum B start files) {block : CBlock} {chain : List CBlock}
    {hashPrev : Uint256} {undo? : Option CBlockUndo}
    (hnew : ∀undo,undo?=some undo → ∃s a undo',Chained R K checksum B start chain s ∧
      SoundBlock R B chain s.view block ∧ connectBlock R (tipIndex chain) block s.view=.ok a ∧
      a.undo=some undo' ∧ undoWriteToDisk K checksum hashPrev undo=
        undoWriteToDisk K checksum s.view.bestBlock undo') :
    FilesOf R K checksum B start (storeUndo K checksum (block::chain) hashPrev undo? files) := by
  unfold storeUndo
  split
  · rename_i undo hnone
    intro block' chain' file hfile
    by_cases heq : block'::chain'=block::chain
    · obtain ⟨rfl,rfl⟩ := List.cons.inj heq
      rw [Function.update_self] at hfile
      obtain rfl := Option.some.inj hfile
      exact hnew undo rfl
    · rw [Function.update_of_ne heq] at hfile
      exact h block' chain' file hfile
  · exact h

theorem OnActiveChain.connect {start s s' : ChainState Tree} {block : CBlock}
    (hs : OnActiveChain R K checksum B start s) (hstart : start.chain=[])
    (hsound : SoundBlock R B s.chain s.view block)
    (h : connectTip R K checksum block s=some s') : OnActiveChain R K checksum B start s' := by
  obtain ⟨a,ha,hview,hindex,hfiles,hchain⟩ := connectTip_some h
  obtain ⟨ref,href,htwins,hsame⟩ := hs.replayed
  have hrefsound := hsound.of_sameTip htwins.tip
  have hheight : block.hash≠R.hashGenesisBlock → 0<childHeight (tipIndex s.chain) ∧
      childHeight (tipIndex s.chain)<2^31 := by
    intro hne
    obtain ⟨-,-,notarypay,-,⟨heq,-⟩ | ⟨-,hconn⟩⟩ := connectBlock_ok R ha
    · exact absurd heq hne
    obtain ⟨hprev,-⟩ := connectTransactions_ok R hconn
    obtain ⟨p,hp⟩ := Option.ne_none_iff_exists'.mp hprev
    have hrange := tipIndex_range hp hsound.height
    rw [hp]
    dsimp only [childHeight]
    omega
  obtain ⟨c,hc,hundo,hdelta,htw⟩ := connectBlock_twin R htwins hsound.txs hheight ha
  obtain ⟨ref',hrefconn,hrefview,hrefindex⟩ : ∃ref',connectTip R K checksum block ref=some ref' ∧
      ref'.view=c.view ∧ ref'.index=ref.index.connect R.toIndexRules c.delta := by
    unfold connectTip
    rw [href.chain_eq hstart,hc]
    exact ⟨_,rfl,rfl,rfl⟩
  refine ⟨⟨ref',?_,?_,?_⟩,?_⟩
  · rw [hchain]
    exact .cons href hrefsound hrefconn
  · rw [hview,hrefview]
    exact htw
  · rw [hindex,hrefindex,hsame,hdelta]
  · rw [hfiles]
    apply hs.files.store
    intro undo hundo'
    exact ⟨ref,c,undo,href,hrefsound,hc,hundo.trans hundo',by rw [htwins.tip.bestBlock]⟩

/-- The index entries of a block that spent nothing with an address are taken back. -/
theorem index_undone {p : CBlockIndex} {block : CBlock} {v w : View Tree} {a : Connected Tree}
    {undo : CBlockUndo} {index : IndexDb} {chain : List CBlock} {d : DisconnectState Tree}
    (ha : connectBlock R (some p) block v=.ok a) (hundo : a.undo=some undo)
    (hsound : SoundBlock R B chain v block) (hkeys : KeysIn (txidsOf chain) index)
    (hrecords : ∀t∈undo.vtxundo,∀u∈t.vprevout,NoAddress R u)
    (hd : disconnectBlock R p block undo w=some d) :
    (index.connect R.toIndexRules a.delta).disconnect R.toIndexRules d.delta=index := by
  obtain ⟨hchecked,-,tree,cs,coinbase,txs,undos,-,-,-,-,htrace,rfl,rfl⟩ :=
    connectBlock_trace R ha hundo
  have hundoable : ∀tx∈block.vtx,Undoable R B tx :=
    fun tx htx => ⟨hchecked.txs tx htx,(hsound.txs tx htx).1,(hsound.txs tx htx).2⟩
  have hall : ∀t∈(⟨[]⟩::undos : List CTxUndo),∀u∈t.vprevout,NoAddress R u := by
    intro t ht u hu
    rcases List.mem_cons.mp ht with rfl | ht
    · cases hu
    · exact hrecords t ht u hu
  have hdelta := htrace.delta_eq R hundoable fun t ht u hu => (hall t ht u hu).2
  obtain ⟨-,-,ds,hds,-,hddelta,-,-,-⟩ := disconnectBlock_some R hd
  obtain ⟨haddress,hunspent,hnull⟩ := disconnectTxs_delta R (htrace.length R) hds hall
  have htxids : ∀tx∈block.vtx,tx.hash∈txidsOf [block] :=
    fun tx htx => ⟨block,by simp,tx,htx,rfl⟩
  have hfree : KeysIn (txidsOf [block])ᶜ index := by
    apply hkeys.mono
    intro txid hin hmem
    obtain ⟨b,hb,tx,htx,rfl⟩ := hmem
    rw [List.mem_singleton.mp hb] at htx
    exact hsound.fresh tx htx hin
  apply index_disconnect_connect hfree
  · exact htrace.deltaIn R htxids (DeltaIn.empty _)
  · dsimp only [finishBlock]
    rw [hdelta]
    exact receivedDelta_spent R _ _ _
  · dsimp only [finishBlock]
    rw [hdelta]
    exact receivedDelta_unspent R htxids
  · intro e
    dsimp only [finishBlock]
    rw [hdelta,hddelta,haddress]
    simp [IndexDelta.empty,IndexDelta.append]
  · intro k
    dsimp only [finishBlock]
    rw [hdelta,hddelta,hunspent]
    simp [IndexDelta.empty,IndexDelta.append]
  · intro e he
    rw [hddelta] at he
    exact (hnull e he).resolve_left (List.not_mem_nil)

/-- The index entries and the view of the chain below come back. -/
theorem OnActiveChain.disconnect {s s' : ChainState Tree} (hR : SoundRules R emptyTree)
    (hs : OnActiveChain R K checksum B (.start R.trees emptyTree sproutRoot) s)
    (hguard : indexGuard R K checksum B s .disconnect)
    (h : disconnectTip R K checksum s=some s') :
    OnActiveChain R K checksum B (.start R.trees emptyTree sproutRoot) s' := by
  obtain ⟨block,p,file,d,hchain,hp,hfile,hd,-,hview,hindex,hfiles⟩ := disconnectTip_some h
  obtain ⟨ref,href,htwins,hsame⟩ := hs.replayed
  rw [hchain] at href hfile
  obtain ⟨low,a,undo,hlow,hsound,ha,hundo,rfl⟩ := hs.files _ _ _ hfile
  rw [hp] at ha
  have hgrown := hlow.grown hR
  have hrange := tipIndex_range hp hsound.height
  have hversion : ∀tx∈block.vtx,tx.nVersion<2^31 := fun tx htx => (hsound.txs tx htx).1
  obtain ⟨hchecked,hbest,-⟩ := connectBlock_trace R ha hundo
  have hat : AtBlock R p low.view := by
    have hanchor := hgrown.anchor
    rw [hp] at hanchor
    exact ⟨hgrown.stored,hanchor⟩
  have hrefview : ref.view=a.view ∧ ref.index=low.index.connect R.toIndexRules a.delta := by
    cases href with
    | cons hlow' hsound' hconn' =>
      obtain rfl := hlow.unique hlow'
      obtain ⟨a',ha',hv',hi',-,-⟩ := connectTip_some hconn'
      rw [hlow.chain_eq rfl,hp,ha] at ha'
      obtain rfl := Except.ok.inj ha'
      exact ⟨hv',hi'⟩
  rw [hrefview.1] at htwins
  obtain ⟨d',hd',-,halike,htip,hstored⟩ := disconnectBlock_connectBlock R ha hundo hat hrange
    hsound.txs hsound.nodup hsound.root htwins.alike htwins.tip htwins.left
  rw [← hbest] at hd
  rw [disconnectFromDisk_eq R K checksum ha hundo hgrown.stored hrange hversion,hd'] at hd
  obtain rfl := Option.some.inj hd
  refine ⟨⟨low,hlow,?_,?_⟩,?_⟩
  · rw [hview]
    exact ⟨halike,htip,hstored,hgrown.stored⟩
  · rw [hindex,hsame,hrefview.2]
    obtain ⟨-,hstorable,hsoundrec⟩ := connectBlock_stored R ha hundo hgrown.stored hrange hversion
    apply index_undone ha hundo hsound hgrown.keys ?_ hd'
    intro t ht u hu
    have hvalue := ((hsoundrec t ht).2 u hu).storable.txout.value.1
    refine ⟨?_,?_⟩
    · simp only [CTxOut.isNull,beq_eq_false_iff_ne]
      omega
    · apply hguard _ undo (by rw [hchain]; exact hfile) ?_ t ht u hu
      rw [hchain,List.tail_cons,hp,← hbest]
      exact undoReadFromDisk_undoWriteToDisk K checksum p.hashBlock hstorable
  · rw [hfiles]
    exact hs.files

theorem twins_self {v : View Tree} (h : v.Stored) : Twins B v v := ⟨.refl v,.refl v,h,h⟩

/-- Along every run of sound blocks that never disconnects a spend of an output with an
address, the three indexes are those of connecting only the blocks of the active chain. -/
theorem indexes_follow_active_chain (hR : SoundRules R emptyTree) {ops : List ChainOp}
    {s : ChainState Tree}
    (hrun : run (chainStep R K checksum) ops (.start R.trees emptyTree sproutRoot)=some s)
    (hguard : Guarded (chainStep R K checksum) (indexGuard R K checksum B) ops
      (.start R.trees emptyTree sproutRoot)) :
    ∃ref,run (chainStep R K checksum) (s.chain.reverse.map ChainOp.connect)
        (.start R.trees emptyTree sproutRoot)=some ref ∧ s.index=ref.index := by
  have hstart : OnActiveChain R K checksum B (.start R.trees emptyTree sproutRoot)
      (.start R.trees emptyTree sproutRoot) := by
    refine ⟨⟨_,.nil,twins_self (grown_start hR).stored,rfl⟩,?_⟩
    intro block chain file hfile
    cases hfile
  have hstep : ∀s op s',indexGuard R K checksum B s op →
      OnActiveChain R K checksum B (.start R.trees emptyTree sproutRoot) s →
      chainStep R K checksum s op=some s' →
      OnActiveChain R K checksum B (.start R.trees emptyTree sproutRoot) s' := by
    intro s op s' hg hI h
    cases op with
    | connect block => exact hI.connect rfl hg h
    | disconnect => exact hI.disconnect hR hg h
  obtain ⟨ref,href,-,hsame⟩ := (run_keeps hstep hrun hguard hstart).replayed
  exact ⟨ref,href.run_eq,hsame⟩

end Runs

section Small

/-- A first block with two outputs to one address. -/
def twoCoinBlock : CBlock := ⟨10,0,0,[plainTx 101 [⟨0,0xFFFFFFFF⟩] [⟨25,[0x51]⟩,⟨25,[0x51]⟩]]⟩

/-- Spends one of them. -/
def payBlock : CBlock := ⟨11,0,0,[plainCoinbase 102,plainTx 103 [⟨101,0⟩] [⟨25,[0x51]⟩]]⟩

/-- The transaction keeps an output, so its record has no height. -/
def payUndo : CBlockUndo := ⟨[⟨[⟨⟨25,[0x51]⟩,false,0,0⟩]⟩],0⟩

theorem storable_payUndo : payUndo.Storable := by
  refine ⟨by decide,?_⟩
  intro t ht
  rw [List.mem_singleton.mp ht]
  refine ⟨by decide,?_⟩
  intro r hr
  rw [List.mem_singleton.mp hr]
  exact ⟨⟨by decide,by decide⟩,by decide,by decide,by decide⟩

theorem soundBlock_small {chain : List CBlock} {v : View Unit} {block : CBlock}
    (hplain : ∀tx∈block.vtx,tx.nVersion<2^31 ∧ tx.isCoinImport=false)
    (hnodup : (block.vtx.map CTransaction.hash).Nodup)
    (hfresh : ∀tx∈block.vtx,∀b∈chain,∀tx'∈b.vtx,tx'.hash≠tx.hash) (hheight : chain.length<2^31)
    (hbest : v.bestSaplingAnchor=1) (houtputs : ∀tx∈block.vtx,tx.vShieldedOutput=[])
    (hgenesis : block.hash=1000 → chain=[]) : SoundBlock (smallRules false) ∅ chain v block := by
  refine ⟨?_,hnodup,?_,hheight,?_,fun _ => houtputs,fun h => ⟨hgenesis h,fun h => by cases h⟩⟩
  · intro tx htx
    refine ⟨(hplain tx htx).1,apart_empty _ (hplain tx htx).2 ?_⟩
    unfold CTransaction.isPegsImport
    split <;> rfl
  · rintro tx htx ⟨b,hb,tx',htx',heq⟩
    exact hfresh tx htx b hb tx' htx' heq
  · intro tree tree' _ _
    exact .inl hbest.symm

/-- Connecting and disconnecting a block that only mints. -/
theorem indexes_follow_small : ∃s,
    run (chainStep (smallRules false) noKeys noChecksum)
      [.connect genesisBlock,.connect twoCoinBlock,.disconnect] (smallStart false)=some s ∧
    ∃ref,run (chainStep (smallRules false) noKeys noChecksum)
      (s.chain.reverse.map ChainOp.connect) (smallStart false)=some ref ∧ s.index=ref.index := by
  have hfacts₁ : (connectTip (smallRules false) noKeys noChecksum genesisBlock
      (smallStart false)).map (fun s => (s.chain,s.view.bestSaplingAnchor))=
      some ([genesisBlock],1) := rfl
  obtain ⟨s₁,hs₁,hall₁⟩ := Option.map_eq_some_iff.mp hfacts₁
  obtain ⟨hchain₁,hbest₁⟩ := Prod.mk.inj hall₁
  have hfacts₂ : ((connectTip (smallRules false) noKeys noChecksum genesisBlock
      (smallStart false)).bind (connectTip (smallRules false) noKeys noChecksum twoCoinBlock)).map
      (fun s => (s.chain,s.undoFiles [twoCoinBlock,genesisBlock],
        (disconnectBlock (smallRules false) ⟨1000,0,0,0⟩ twoCoinBlock ⟨[],0⟩ s.view).map
          DisconnectState.fClean))=
      some ([twoCoinBlock,genesisBlock],some (undoWriteToDisk noKeys noChecksum 1000 ⟨[],0⟩),
        some true) := rfl
  rw [hs₁] at hfacts₂
  obtain ⟨s₂,hs₂,hall₂⟩ := Option.map_eq_some_iff.mp hfacts₂
  obtain ⟨hchain₂,hrest⟩ := Prod.mk.inj hall₂
  obtain ⟨hfile,hback⟩ := Prod.mk.inj hrest
  obtain ⟨d,hd,hclean⟩ := Option.map_eq_some_iff.mp hback
  have hstorable : (⟨[],0⟩ : CBlockUndo).Storable := ⟨by decide,by simp⟩
  have hstep := disconnectTip_eq (smallRules false) noKeys noChecksum hchain₂ rfl hfile hstorable
    hd hclean
  have hs₂' : connectTip (smallRules false) noKeys noChecksum twoCoinBlock s₁=some s₂ := hs₂
  have hrun : run (chainStep (smallRules false) noKeys noChecksum)
      [.connect genesisBlock,.connect twoCoinBlock,.disconnect] (smallStart false)=
      some ⟨d.view,s₂.index.disconnect (smallRules false).toIndexRules d.delta,s₂.undoFiles,
        [genesisBlock]⟩ := by
    simp [run,chainStep,hs₁,hs₂',hstep]
  refine ⟨_,hrun,?_⟩
  have hrules : SoundRules (smallRules false) () := ⟨fun h hh => hh,rfl⟩
  apply indexes_follow_active_chain (B := ∅) hrules hrun
  refine ⟨?_,?_⟩
  · exact soundBlock_small (by decide) (by decide) (by decide) (by decide) rfl (by decide) (by decide)
  intro t₁ ht₁
  obtain rfl := Option.some.inj (hs₁.symm.trans ht₁)
  refine ⟨?_,?_⟩
  · dsimp only [indexGuard]
    rw [hchain₁]
    exact soundBlock_small (by decide) (by decide) (by decide) (by decide) hbest₁ (by decide)
      (by decide)
  intro t₂ ht₂
  obtain rfl := Option.some.inj (hs₂'.symm.trans ht₂)
  refine ⟨?_,fun _ _ => trivial⟩
  intro file undo hf hread t ht
  rw [hchain₂] at hf hread
  obtain rfl := Option.some.inj (hfile.symm.trans hf)
  have hsame := undoReadFromDisk_undoWriteToDisk noKeys noChecksum 1000 hstorable
  obtain rfl := Option.some.inj (hsame.symm.trans hread)
  cases ht

/-- After a block that spends is disconnected, the spent index still has its entry, and the
output is back in the address index with height 0. -/
theorem spent_index_stays : ∃s ref,
    run (chainStep (smallRules false) noKeys noChecksum)
      ([.connect genesisBlock,.connect twoCoinBlock,.connect payBlock]++[.disconnect])
      (smallStart false)=some s ∧
    run (chainStep (smallRules false) noKeys noChecksum)
      (s.chain.reverse.map ChainOp.connect) (smallStart false)=some ref ∧
    s.index.spent ⟨101,0⟩=some ⟨103,0,2,25,1,[0x51]⟩ ∧ ref.index.spent ⟨101,0⟩=none ∧
    s.index.addressUnspent ⟨1,[0x51],101,0⟩=some ⟨25,[0x51],0⟩ ∧
    ref.index.addressUnspent ⟨1,[0x51],101,0⟩=some ⟨25,[0x51],1⟩ := by
  have hfacts : (run (chainStep (smallRules false) noKeys noChecksum)
      [.connect genesisBlock,.connect twoCoinBlock,.connect payBlock] (smallStart false)).map
      (fun s => (s.chain,s.undoFiles [payBlock,twoCoinBlock,genesisBlock],
        (disconnectBlock (smallRules false) ⟨10,1,0,0⟩ payBlock payUndo s.view).map
          fun d => (d.fClean,s.index.spent ⟨101,0⟩,
            (s.index.disconnect (smallRules false).toIndexRules d.delta).addressUnspent
              ⟨1,[0x51],101,0⟩)))=
      some ([payBlock,twoCoinBlock,genesisBlock],
        some (undoWriteToDisk noKeys noChecksum 10 payUndo),
        some (true,some ⟨103,0,2,25,1,[0x51]⟩,some ⟨25,[0x51],0⟩)) := rfl
  have href : (run (chainStep (smallRules false) noKeys noChecksum)
      [.connect genesisBlock,.connect twoCoinBlock] (smallStart false)).map
      (fun s => (s.index.spent ⟨101,0⟩,s.index.addressUnspent ⟨1,[0x51],101,0⟩))=
      some (none,some ⟨25,[0x51],1⟩) := rfl
  obtain ⟨s,hs,hall⟩ := Option.map_eq_some_iff.mp hfacts
  obtain ⟨hchain,hrest⟩ := Prod.mk.inj hall
  obtain ⟨hfile,hback⟩ := Prod.mk.inj hrest
  obtain ⟨d,hd,hvalues⟩ := Option.map_eq_some_iff.mp hback
  obtain ⟨hclean,hvalues⟩ := Prod.mk.inj hvalues
  obtain ⟨hspent,hunspent⟩ := Prod.mk.inj hvalues
  obtain ⟨ref,hrun,hrefs⟩ := Option.map_eq_some_iff.mp href
  obtain ⟨hrefspent,hrefunspent⟩ := Prod.mk.inj hrefs
  have hstep := disconnectTip_eq (smallRules false) noKeys noChecksum hchain rfl hfile
    storable_payUndo hd hclean
  refine ⟨⟨d.view,s.index.disconnect (smallRules false).toIndexRules d.delta,s.undoFiles,
    [twoCoinBlock,genesisBlock]⟩,ref,?_,hrun,hspent,hrefspent,hunspent,hrefunspent⟩
  rw [run_append,hs]
  exact congrArg (Option.bind · some) hstep

end Small

end Zdeex.Block
