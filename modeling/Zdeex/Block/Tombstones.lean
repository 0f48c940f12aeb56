import Zdeex.Block.ChainRun
import Zdeex.Block.UndoBlock

namespace Zdeex.Block

open Zdeex.Framework
open Zdeex.Coins

variable {Tree : Type} (R : BlockRules Tree) {b : Uint256}

theorem mem_lookedUp_of_mem_spentInputs {pegscc : Bool} {tx : CTransaction} {txin : CTxIn}
    (h : txin∈spentInputs pegscc tx) : txin∈View.lookedUp pegscc tx := by
  unfold spentInputs at h
  unfold View.lookedUp
  split_ifs at h ⊢ with hmint hpegs
  · exact h
  · obtain ⟨hin,hmarker⟩ := List.mem_filter.mp h
    rw [hpegs,Bool.true_and,Bool.not_eq_true'] at hmarker
    cases hvin : tx.vin with
    | nil =>
      rw [hvin] at hin
      cases hin
    | cons first rest =>
      rw [hvin] at hin
      rcases List.mem_cons.mp hin with rfl | hin
      · unfold CTransaction.isPegsImport at hpegs
        rw [hvin,Bool.and_eq_true,hmarker] at hpegs
        cases hpegs.2
      · exact hin
  · exact (List.mem_filter.mp h).1

section Connect

variable {nHeight : Int} {i : Nat}

/-- The edit of `AddImportTombstone`. -/
def withTombstone (nHeight : Int) (c : CCoins) : CCoins :=
  {c with nHeight := nHeight,nVersion := 4,vout := c.vout++[tombstone]}

/-- A transaction touches the entry of another one only to spend from it, or to mark it
as imported. -/
theorem entry_updateCoins {tx : CTransaction} {v v' : View Tree} {undo : CTxUndo}
    (h : updateCoins R.pegscc tx nHeight v=some (v',undo))
    (hspend : ∀txin∈View.lookedUp R.pegscc tx,txin.prevout.hash≠b) (hown : tx.hash≠b) :
    v'.entry b=if importsBurn R b tx then (withTombstone nHeight (v.entry b)).cleanup
      else v.entry b := by
  obtain ⟨v₁,undos,hspent,rfl,-⟩ := updateCoins_eq h
  have hv₁ : v₁.entry b=v.entry b := spendInputs_entry hspent fun txin hin =>
    hspend txin (mem_lookedUp_of_mem_spentInputs hin)
  have hadded : ((v₁.setNullifiers tx true).modifyCoins tx.hash
      fun _ => CCoins.fromTx tx nHeight).entry b=v.entry b := by
    rw [View.entry_modifyCoins,if_neg (Ne.symm hown)]
    exact hv₁
  unfold addOutputs importsBurn
  dsimp only
  cases himport : tx.isCoinImport || tx.isPegsImport R.pegscc with
  | false =>
    rw [if_neg (by decide),Bool.false_and,if_neg (by decide)]
    exact hadded
  | true =>
    rw [if_pos rfl,Bool.true_and,addImportTombstone,View.entry_modifyCoins]
    by_cases hburn : burnHash tx=b
    · subst hburn
      rw [if_pos rfl,if_pos (beq_self_eq_true _),hadded]
      rfl
    · rw [if_neg (Ne.symm hburn),if_neg (by simpa using hburn)]
      exact hadded

/-- An entry as the last import left it: nothing unspent, or exactly the tombstone. -/
def Marks (h : Option Int) (c : CCoins) : Prop :=
  match h with
  | none => c.vout=[] ∧ c.fCoinBase=false
  | some h => c=⟨false,[tombstone],h,4⟩

/-- A transaction of the chain that can stand for a burn: nothing in it can be spent. -/
def AllBurned (tx : CTransaction) : Prop :=
  tx.isCoinBase=false ∧ ∀o∈tx.vout,isUnspendable o.scriptPubKey=true

theorem marks_fromTx {tx : CTransaction} (h : AllBurned tx) :
    Marks none (CCoins.fromTx tx nHeight).cleanup := by
  have hvout : (CCoins.fromTx tx nHeight).cleanup.vout=[] := by
    rw [CCoins.vout_cleanup_eq_nil]
    unfold CCoins.fromTx CCoins.clearUnspendable
    rw [CCoins.isPruned_cleanup,CCoins.isPruned,List.all_map,List.all_eq_true]
    intro o ho
    simp only [Function.comp_apply,h.2 o ho,if_true]
    rfl
  exact ⟨hvout,h.1⟩

theorem marks_updateCoins {tx : CTransaction} {v v' : View Tree} {undo : CTxUndo}
    (h : updateCoins R.pegscc tx nHeight v=some (v',undo))
    (hspend : ∀txin∈View.lookedUp R.pegscc tx,txin.prevout.hash≠b)
    (hown : tx.hash=b → AllBurned tx) (himport : importsBurn R b tx=false)
    (hv : Marks none (v.entry b)) : Marks none (v'.entry b) := by
  by_cases heq : tx.hash=b
  · obtain ⟨v₁,undos,-,rfl,-⟩ := updateCoins_eq h
    have hadded : Marks none (((v₁.setNullifiers tx true).modifyCoins tx.hash
        fun _ => CCoins.fromTx tx nHeight).entry b) := by
      rw [View.entry_modifyCoins,if_pos heq.symm]
      exact marks_fromTx (hown heq)
    unfold addOutputs
    dsimp only
    split_ifs with hany
    · rw [addImportTombstone,View.entry_modifyCoins,if_neg]
      · exact hadded
      · rintro rfl
        simp [importsBurn,hany] at himport
    · exact hadded
  · rw [entry_updateCoins R h hspend heq,himport]
    exact hv

theorem cleanup_withTombstone {c : CCoins} (h : Marks none c) :
    (withTombstone nHeight c).cleanup=⟨false,[tombstone],nHeight,4⟩ := by
  obtain ⟨hvout,hbase⟩ := h
  simp only [withTombstone,hvout,hbase,List.nil_append]
  rfl

variable {txs : List CTransaction} {undos : List CTxUndo} {s s' : ConnectState Tree}

/-- Transactions that have nothing to do with a burn. -/
theorem TxsConnected.entry_eq (h : TxsConnected R nHeight i txs undos s s')
    (hspend : ∀tx∈txs,∀txin∈View.lookedUp R.pegscc tx,txin.prevout.hash≠b)
    (hown : ∀tx∈txs,tx.hash≠b) (himport : ∀tx∈txs,importsBurn R b tx=false) :
    s'.view.entry b=s.view.entry b := by
  induction h with
  | nil i s => rfl
  | @cons i tx txs undo undos s s₁ s' valueout htx hrest ih =>
    rw [ih (fun t ht => hspend t (by simp [ht])) (fun t ht => hown t (by simp [ht]))
      (fun t ht => himport t (by simp [ht])),
      entry_updateCoins R htx.coins (hspend tx (by simp)) (hown tx (by simp)),
      himport tx (by simp)]
    rfl

theorem TxsConnected.marks_none (h : TxsConnected R nHeight i txs undos s s')
    (hspend : ∀tx∈txs,∀txin∈View.lookedUp R.pegscc tx,txin.prevout.hash≠b)
    (hown : ∀tx∈txs,tx.hash=b → AllBurned tx) (himport : ∀tx∈txs,importsBurn R b tx=false)
    (hs : Marks none (s.view.entry b)) : Marks none (s'.view.entry b) := by
  induction h with
  | nil i s => exact hs
  | @cons i tx txs undo undos s s₁ s' valueout htx hrest ih =>
    apply ih (fun t ht => hspend t (by simp [ht])) (fun t ht => hown t (by simp [ht]))
      (fun t ht => himport t (by simp [ht]))
    exact marks_updateCoins R htx.coins (hspend tx (by simp)) (hown tx (by simp))
      (himport tx (by simp)) hs

/-- One import among the transactions leaves its tombstone. -/
theorem TxsConnected.marks_some (h : TxsConnected R nHeight i txs undos s s')
    (hspend : ∀tx∈txs,∀txin∈View.lookedUp R.pegscc tx,txin.prevout.hash≠b)
    (hown : ∀tx∈txs,tx.hash≠b) (honce : txs.countP (importsBurn R b)=1)
    (hs : Marks none (s.view.entry b)) : Marks (some nHeight) (s'.view.entry b) := by
  induction h with
  | nil i s => cases honce
  | @cons i tx txs undo undos s s₁ s' valueout htx hrest ih =>
    have hentry := entry_updateCoins R htx.coins (hspend tx (by simp)) (hown tx (by simp))
    rw [List.countP_cons] at honce
    cases himport : importsBurn R b tx with
    | true =>
      rw [himport,if_pos rfl] at honce hentry
      have hnone : ∀t∈txs,importsBurn R b t=false := by
        have hzero : txs.countP (importsBurn R b)=0 := by omega
        intro t ht
        simpa using List.countP_eq_zero.mp hzero t ht
      rw [hrest.entry_eq R (fun t ht => hspend t (by simp [ht])) (fun t ht => hown t (by simp [ht]))
        hnone,hentry]
      exact cleanup_withTombstone hs
    | false =>
      rw [himport] at hentry honce
      apply ih (fun t ht => hspend t (by simp [ht])) (fun t ht => hown t (by simp [ht])) honce
      rw [hentry]
      exact hs

end Connect

section Disconnect

variable {nHeight : Int} {i : Nat}

theorem restoreInputs_entry {txhash : Uint256} {j : Nat} {l : List (CTxIn × CTxInUndo)}
    {d d' : DisconnectState Tree} (h : restoreInputs R nHeight i txhash j l d=some d')
    (hl : ∀x∈l,x.1.prevout.hash≠b) : d'.view.entry b=d.view.entry b := by
  induction l generalizing j d' with
  | nil =>
    obtain rfl := Option.some.inj h
    rfl
  | cons x l ih =>
    rw [restoreInputs,Option.bind_eq_some_iff] at h
    obtain ⟨d₁,h₁,h⟩ := h
    unfold restoreInput at h
    dsimp only at h
    split_ifs at h
    obtain rfl := Option.some.inj h
    dsimp only [applyTxInUndo]
    rw [View.entry_modifyCoins,if_neg (Ne.symm (hl x (by simp)))]
    exact ih h₁ fun y hy => hl y (by simp [hy])

theorem undoneInputs_mem {tx : CTransaction} {txundo : CTxUndo} {j : Nat}
    {inputs : List (CTxIn × CTxInUndo)} (hmint : tx.isMint=false)
    (h : undoneInputs R tx txundo=some (j,inputs)) :
    ∀x∈inputs,x.1∈View.lookedUp R.pegscc tx := by
  unfold undoneInputs at h
  unfold View.lookedUp
  rw [hmint]
  split_ifs at h with hpegs
  · obtain ⟨-,rfl⟩ := Prod.mk.inj (Option.some.inj h)
    intro x hx
    rw [if_neg (by decide),if_pos hpegs]
    exact (List.of_mem_zip hx).1
  · obtain ⟨-,rfl⟩ := Prod.mk.inj (Option.some.inj h)
    intro x hx
    rw [if_neg (by decide),if_neg hpegs]
    exact (List.of_mem_zip hx).1

/-- Undoing a transaction clears its own entry and, for a coin import, that of the burn. -/
theorem entry_disconnectTx {tx : CTransaction} {txundo : CTxUndo} {d d' : DisconnectState Tree}
    (h : disconnectTx R nHeight i tx txundo d=some d')
    (hspend : ∀txin∈View.lookedUp R.pegscc tx,txin.prevout.hash≠b)
    (hmint : importsBurn R b tx=true → tx.isCoinImport=true) :
    d'.view.entry b=if tx.hash=b ∨ importsBurn R b tx=true then CCoins.clear else d.view.entry b := by
  have hremoved : ((removeOutputs nHeight tx d.view).1.setNullifiers tx false).entry b=
      if tx.hash=b then CCoins.clear else d.view.entry b := by
    have hentry := d.view.entry_modifyCoins tx.hash b fun _ => CCoins.clear
    simp only [eq_comm (a := b)] at hentry
    exact hentry
  unfold disconnectTx undoInputs at h
  dsimp only at h
  cases hm : tx.isMint with
  | false =>
    have himport : importsBurn R b tx=false := by
      by_contra hne
      rw [Bool.not_eq_false] at hne
      simp [CTransaction.isMint,hmint hne] at hm
    rw [hm,if_pos rfl] at h
    split at h
    · cases h
    · rename_i j inputs hinputs
      rw [restoreInputs_entry R h fun x hx => hspend x.1 (undoneInputs_mem R hm hinputs x hx),
        hremoved,himport]
      simp
  | true =>
    rw [hm,if_neg (by decide)] at h
    split_ifs at h with hany
    · obtain rfl := Option.some.inj h
      dsimp only [removeImportTombstone]
      rw [View.entry_modifyCoins,hremoved]
      unfold importsBurn
      rw [hany,Bool.true_and]
      by_cases hburn : b=burnHash tx
      · subst hburn
        simp [CCoins.cleanup,CCoins.clear]
      · rw [if_neg hburn]
        simp [Ne.symm hburn]
    · obtain rfl := Option.some.inj h
      rw [hremoved]
      unfold importsBurn
      rw [Bool.not_eq_true] at hany
      rw [hany,Bool.false_and]
      simp

theorem entry_disconnectTxs {l : List (CTransaction × CTxUndo)} {d d' : DisconnectState Tree}
    (h : disconnectTxs R nHeight i l d=some d')
    (hspend : ∀x∈l,∀txin∈View.lookedUp R.pegscc x.1,txin.prevout.hash≠b)
    (hmint : ∀x∈l,importsBurn R b x.1=true → x.1.isCoinImport=true) :
    (d'.view.entry b=CCoins.clear ∧ ∃x∈l,x.1.hash=b ∨ importsBurn R b x.1=true) ∨
      (d'.view.entry b=d.view.entry b ∧ ∀x∈l,x.1.hash≠b ∧ importsBurn R b x.1=false) := by
  induction l generalizing i d' with
  | nil =>
    obtain rfl := Option.some.inj h
    exact .inr ⟨rfl,by simp⟩
  | cons x l ih =>
    rw [disconnectTxs,Option.bind_eq_some_iff] at h
    obtain ⟨d₁,h₁,h⟩ := h
    have hentry := entry_disconnectTx R h (hspend x (by simp)) (hmint x (by simp))
    have hrest := ih h₁ (fun y hy => hspend y (by simp [hy])) (fun y hy => hmint y (by simp [hy]))
    by_cases hx : x.1.hash=b ∨ importsBurn R b x.1=true
    · rw [if_pos hx] at hentry
      exact .inl ⟨hentry,x,by simp,hx⟩
    · rw [if_neg hx] at hentry
      rw [hentry]
      rcases hrest with ⟨hclear,y,hy,hby⟩ | ⟨hsame,hall⟩
      · exact .inl ⟨hclear,y,by simp [hy],hby⟩
      · refine .inr ⟨hsame,?_⟩
        intro y hy
        rcases List.mem_cons.mp hy with rfl | hy
        · exact ⟨fun heq => hx (.inl heq),by simpa using fun him => hx (.inr him)⟩
        · exact hall y hy

end Disconnect

section Runs

variable (b) (K : PubKeys) (checksum : Uint256 → List Byte → Uint256)

def importsIn (block : CBlock) : Bool := block.vtx.any (importsBurn R b)

/-- Height of the last import of a burn on a chain. -/
def importHeight : List CBlock → Option Int
  | [] => none
  | block::rest => if importsIn R b block then some rest.length else importHeight rest

/-- A block treats a burn as imports are meant to: it is imported once on the chain, by a
transaction with one input, nothing of it is unspent or spent on the chain, and the
genesis block has no part in it. -/
structure ImportsOnce (chain : List CBlock) (block : CBlock) : Prop where
  spend : ∀tx∈block.vtx,∀txin∈View.lookedUp R.pegscc tx,txin.prevout.hash≠b
  own : ∀tx∈block.vtx,tx.hash=b → AllBurned tx ∧ importsIn R b block=false
  mint : ∀tx∈block.vtx,importsBurn R b tx=true → tx.isCoinImport=true
  once : block.vtx.countP (importsBurn R b)≤1
  again : importsIn R b block=true → importHeight R b chain=none
  genesis : block.hash=R.hashGenesisBlock → ∀tx∈block.vtx,tx.hash≠b ∧ importsBurn R b tx=false

/-- What a call must meet: a block that is connected imports the burn as above. -/
def importGuard (s : ChainState Tree) : ChainOp → Prop
  | .connect block => ImportsOnce R b s.chain block
  | .disconnect => True

/-- The blocks of a chain are as above, and a burn that is a transaction of the chain is
not imported below it. -/
def ChainImports : List CBlock → Prop
  | [] => True
  | block::rest => ImportsOnce R b rest block ∧
      ((∃tx∈block.vtx,tx.hash=b) → importHeight R b rest=none) ∧ ChainImports rest

/-- The entry of a burn is what the chain says. -/
structure FollowsImports (s : ChainState Tree) : Prop where
  chain : ChainImports R b s.chain
  entry : Marks (importHeight R b s.chain) (s.view.entry b)

variable {R b K checksum}

theorem importsIn_false {block : CBlock} (h : importsIn R b block=false) :
    ∀tx∈block.vtx,importsBurn R b tx=false := by
  intro tx htx
  rw [importsIn,List.any_eq_false] at h
  simpa using h tx htx

theorem countP_of_importsIn {chain : List CBlock} {block : CBlock}
    (h : ImportsOnce R b chain block) (hin : importsIn R b block=true) :
    block.vtx.countP (importsBurn R b)=1 := by
  have hpos : 0<block.vtx.countP (importsBurn R b) := by
    rw [List.countP_pos_iff]
    exact List.any_eq_true.mp hin
  have honce := h.once
  omega

/-- What connecting a block does to the entry of a burn. -/
theorem marks_connectBlock {chain : List CBlock} {block : CBlock} {v : View Tree}
    {a : Connected Tree} (h : connectBlock R (tipIndex chain) block v=.ok a)
    (hblock : ImportsOnce R b chain block) (hv : Marks (importHeight R b chain) (v.entry b)) :
    Marks (importHeight R b (block::chain)) (a.view.entry b) ∧
      ((∃tx∈block.vtx,tx.hash=b) → importHeight R b chain=none) := by
  obtain ⟨-,-,notarypay,-,⟨hgenesis,rfl⟩ | ⟨-,hconn⟩⟩ := connectBlock_ok R h
  · have hnone := hblock.genesis hgenesis
    have hin : importsIn R b block=false := by
      rw [importsIn,List.any_eq_false]
      intro tx htx
      simpa using (hnone tx htx).2
    refine ⟨?_,?_⟩
    · rw [importHeight,hin]
      exact hv
    · rintro ⟨tx,htx,heq⟩
      exact absurd heq (hnone tx htx).1
  obtain ⟨-,tree,cs,hbody,rfl⟩ := connectTransactions_ok R hconn
  obtain ⟨undos,htrace⟩ := connectTxs_ok R hbody.txs
  have hlow : (∃tx∈block.vtx,tx.hash=b) → importHeight R b chain=none := by
    rintro ⟨tx,htx,rfl⟩
    have hpruned := hbody.fresh tx htx
    cases hheight : importHeight R tx.hash chain with
    | none => rfl
    | some n =>
      rw [hheight] at hv
      rw [show v.entry tx.hash=⟨false,[tombstone],n,4⟩ from hv] at hpruned
      cases hpruned
  refine ⟨?_,hlow⟩
  rw [entry_finishBlock,importHeight]
  cases hin : importsIn R b block with
  | true =>
    rw [if_pos rfl,← childHeight_tipIndex chain]
    rw [hblock.again hin] at hv
    apply htrace.marks_some R hblock.spend ?_ (countP_of_importsIn hblock hin) hv
    intro tx htx heq
    rw [(hblock.own tx htx heq).2] at hin
    cases hin
  | false =>
    have hnone := importsIn_false hin
    rw [if_neg (by decide)]
    cases hheight : importHeight R b chain with
    | none =>
      rw [hheight] at hv
      exact htrace.marks_none R hblock.spend (fun tx htx heq => (hblock.own tx htx heq).1) hnone hv
    | some n =>
      rw [hheight] at hv
      have hown : ∀tx∈block.vtx,tx.hash≠b := by
        intro tx htx heq
        rw [hlow ⟨tx,htx,heq⟩] at hheight
        cases hheight
      rw [htrace.entry_eq R hblock.spend hown hnone]
      exact hv

/-- What disconnecting a block does to the entry of a burn. -/
theorem marks_disconnectBlock {rest : List CBlock} {p : CBlockIndex} {block : CBlock}
    {undo : CBlockUndo} {v : View Tree} {d : DisconnectState Tree}
    (h : disconnectBlock R p block undo v=some d) (hchain : ChainImports R b (block::rest))
    (hv : Marks (importHeight R b (block::rest)) (v.entry b)) :
    Marks (importHeight R b rest) (d.view.entry b) := by
  obtain ⟨hblock,hown,-⟩ := hchain
  obtain ⟨-,hlen,ds,hds,-,-,hentry,-,-⟩ := disconnectBlock_some R h
  rw [hentry]
  have hmem : ∀x∈block.vtx.zip (⟨[]⟩::undo.vtxundo),x.1∈block.vtx :=
    fun x hx => (List.of_mem_zip hx).1
  rcases entry_disconnectTxs (b := b) R hds (fun x hx => hblock.spend x.1 (hmem x hx))
    (fun x hx => hblock.mint x.1 (hmem x hx)) with ⟨hclear,x,hx,htouch⟩ | ⟨hsame,hnone⟩
  · have hheight : importHeight R b rest=none := by
      rcases htouch with heq | himport
      · exact hown ⟨x.1,hmem x hx,heq⟩
      · exact hblock.again (List.any_eq_true.mpr ⟨x.1,hmem x hx,himport⟩)
    rw [hheight,hclear]
    exact ⟨rfl,rfl⟩
  · have hin : importsIn R b block=false := by
      rw [importsIn,List.any_eq_false]
      intro tx htx
      have hfst : (block.vtx.zip (⟨[]⟩::undo.vtxundo)).map Prod.fst=block.vtx :=
        List.map_fst_zip (by rw [List.length_cons]; omega)
      rw [← hfst] at htx
      obtain ⟨x,hx,rfl⟩ := List.mem_map.mp htx
      simpa using (hnone x hx).2
    rw [importHeight,hin] at hv
    rw [hsame]
    exact hv

theorem FollowsImports.step {s s' : ChainState Tree} {op : ChainOp}
    (hguard : importGuard R b s op) (hs : FollowsImports R b s)
    (h : chainStep R K checksum s op=some s') : FollowsImports R b s' := by
  cases op with
  | connect block =>
    obtain ⟨a,ha,hview,-,-,hchain⟩ := connectTip_some h
    obtain ⟨hmarks,hlow⟩ := marks_connectBlock ha hguard hs.entry
    refine ⟨?_,?_⟩
    · rw [hchain]
      exact ⟨hguard,hlow,hs.chain⟩
    · rw [hchain,hview]
      exact hmarks
  | disconnect =>
    obtain ⟨block,p,file,d,hchain,-,-,hd,-,hview,-,-⟩ := disconnectTip_some h
    obtain ⟨undo,-,hd⟩ := disconnectFromDisk_some hd
    have hold := hs.chain
    have hentry := hs.entry
    rw [hchain] at hold hentry
    refine ⟨hold.2.2,?_⟩
    rw [hview]
    exact marks_disconnectBlock hd hold hentry

theorem importHeight_isSome (chain : List CBlock) :
    (importHeight R b chain).isSome=true ↔ ∃block∈chain,∃tx∈block.vtx,importsBurn R b tx=true := by
  induction chain with
  | nil => simp [importHeight]
  | cons block rest ih =>
    rw [importHeight]
    cases hin : importsIn R b block with
    | true =>
      rw [if_pos rfl,Option.isSome_some]
      obtain ⟨tx,htx,himport⟩ := List.any_eq_true.mp hin
      exact iff_of_true rfl ⟨block,by simp,tx,htx,himport⟩
    | false =>
      rw [if_neg (by decide),ih]
      have hnone := importsIn_false hin
      constructor
      · rintro ⟨block',hmem,htx⟩
        exact ⟨block',by simp [hmem],htx⟩
      · rintro ⟨block',hmem,tx,htx,himport⟩
        rcases List.mem_cons.mp hmem with rfl | hmem
        · rw [hnone tx htx] at himport
          cases himport
        · exact ⟨block',hmem,tx,htx,himport⟩

theorem seen_of_marks {h : Option Int} {c d : CCoins} (hc : Marks h c) (hd : Marks h d) :
    seen (some c)=seen (some d) := by
  cases h with
  | none =>
    rw [seen_of_pruned (by simp [CCoins.isPruned,hc.1]),
      seen_of_pruned (by simp [CCoins.isPruned,hd.1])]
  | some n => rw [show c=_ from hc,show d=_ from hd]

/-- Along every run whose blocks import a burn as imports are meant to, the burn is marked
exactly while an import of it is on the chain, and the same chain always shows the same
entry again. -/
theorem tombstone_iff_imported {emptyTree : Tree} {sproutRoot : Uint256} {ops : List ChainOp}
    {s : ChainState Tree}
    (hrun : run (chainStep R K checksum) ops (.start R.trees emptyTree sproutRoot)=some s)
    (hguard : Guarded (chainStep R K checksum) (importGuard R b) ops
      (.start R.trees emptyTree sproutRoot)) :
    (∀importTx,burnHash importTx=b → (existsImportTombstone importTx s.view=true ↔
      ∃block∈s.chain,∃tx∈block.vtx,importsBurn R b tx=true)) ∧
    ∀more s',run (chainStep R K checksum) more s=some s' →
      Guarded (chainStep R K checksum) (importGuard R b) more s → s'.chain=s.chain →
      seen (some (s'.view.entry b))=seen (some (s.view.entry b)) := by
  have hstart : FollowsImports R b (.start R.trees emptyTree sproutRoot) :=
    ⟨trivial,rfl,rfl⟩
  have hs := run_keeps (fun s op s' hg hI h => FollowsImports.step hg hI h) hrun hguard hstart
  constructor
  · intro importTx hburn
    rw [← importHeight_isSome,existsImportTombstone,View.haveCoins,hburn]
    have hentry := hs.entry
    cases hheight : importHeight R b s.chain with
    | none =>
      rw [hheight] at hentry
      simp [hentry.1]
    | some n =>
      rw [hheight] at hentry
      simp [show s.view.entry b=_ from hentry]
  · intro more s' hmore hg hchain
    have hs' := run_keeps (fun s op s' hg hI h => FollowsImports.step hg hI h) hmore hg hs
    have hentry := hs'.entry
    rw [hchain] at hentry
    exact seen_of_marks hentry hs.entry

end Runs

section Small

def genesisBlock : CBlock := ⟨1000,0,0,[plainCoinbase 100]⟩

/-- A first block with one spendable output. -/
def coinBlock : CBlock := ⟨10,0,0,[plainCoinbase 101]⟩

/-- A coin import of burn 8. -/
def coinImportBlock : CBlock :=
  ⟨11,0,0,[plainCoinbase 102,plainTx 103 [⟨8,1000000000⟩] [⟨0,[0x51]⟩]]⟩

/-- A Pegs import of burn 8 that also spends the output of the first block. -/
def pegsImport : CTransaction := plainTx 103 [⟨8,1000000000⟩,⟨101,0⟩] [⟨50,[0x51]⟩]

def pegsImportBlock : CBlock := ⟨11,0,0,[plainCoinbase 102,pegsImport]⟩

def smallStart (pegscc : Bool) : ChainState Unit := .start (smallRules pegscc).trees () 0

def noChecksum : Uint256 → List Byte → Uint256 := fun _ _ => 0

/-- The record of the output that the Pegs import spends. -/
def pegsUndo : CBlockUndo := ⟨[⟨[⟨⟨50,[0x51]⟩,true,1,1⟩]⟩],0⟩

theorem storable_pegsUndo : pegsUndo.Storable := by
  refine ⟨by decide,?_⟩
  intro t ht
  rw [List.mem_singleton.mp ht]
  refine ⟨by decide,?_⟩
  intro r hr
  rw [List.mem_singleton.mp hr]
  exact ⟨⟨by decide,by decide⟩,by decide,by decide,by decide⟩

theorem importsOnce_of_apart {chain : List CBlock} {block : CBlock}
    (hspend : ∀tx∈block.vtx,∀txin∈View.lookedUp R.pegscc tx,txin.prevout.hash≠b)
    (hown : ∀tx∈block.vtx,tx.hash≠b) (hmint : ∀tx∈block.vtx,importsBurn R b tx=true →
      tx.isCoinImport=true) (honce : block.vtx.countP (importsBurn R b)≤1)
    (hagain : importHeight R b chain=none) (hgenesis : block.hash=R.hashGenesisBlock →
      ∀tx∈block.vtx,importsBurn R b tx=false) : ImportsOnce R b chain block :=
  ⟨hspend,fun tx htx heq => absurd heq (hown tx htx),hmint,honce,fun _ => hagain,
    fun heq tx htx => ⟨hown tx htx,hgenesis heq tx htx⟩⟩

theorem tombstone_iff_imported_small : ∃s,
    run (chainStep (smallRules true) noKeys noChecksum)
      [.connect genesisBlock,.connect coinImportBlock] (smallStart true)=some s ∧
    (existsImportTombstone pegsImport s.view=true ↔
      ∃block∈s.chain,∃tx∈block.vtx,importsBurn (smallRules true) 8 tx=true) := by
  obtain ⟨s,hs⟩ := Option.isSome_iff_exists.mp (show (run (chainStep (smallRules true) noKeys
    noChecksum) [.connect genesisBlock,.connect coinImportBlock] (smallStart true)).isSome=true
    from rfl)
  refine ⟨s,hs,(tombstone_iff_imported (b := 8) hs ⟨?_,?_⟩).1 pegsImport rfl⟩
  · exact importsOnce_of_apart (smallRules true) (by decide) (by decide) (by decide) (by decide) rfl
      (by decide)
  · intro s₁ h₁
    have hconn : connectTip (smallRules true) noKeys noChecksum genesisBlock (smallStart true)=
        some s₁ := h₁
    obtain ⟨-,-,-,-,-,hchain⟩ := connectTip_some hconn
    refine ⟨?_,fun _ _ => trivial⟩
    rw [importGuard,hchain]
    exact importsOnce_of_apart (smallRules true) (by decide) (by decide) (by decide) (by decide) rfl
      (by decide)

/-- After the block with a Pegs import is disconnected, its burn is still marked as
imported. -/
theorem pegs_tombstone_stays : ∃s,
    run (chainStep (smallRules true) noKeys noChecksum)
      ([.connect genesisBlock,.connect coinBlock,.connect pegsImportBlock]++[.disconnect])
      (smallStart true)=some s ∧
    existsImportTombstone pegsImport s.view=true ∧
    ¬∃block∈s.chain,∃tx∈block.vtx,importsBurn (smallRules true) (burnHash pegsImport) tx=true := by
  have hfacts : (run (chainStep (smallRules true) noKeys noChecksum)
      [.connect genesisBlock,.connect coinBlock,.connect pegsImportBlock] (smallStart true)).map
      (fun s => (s.chain,s.undoFiles [pegsImportBlock,coinBlock,genesisBlock],
        (disconnectBlock (smallRules true) ⟨10,1,0,0⟩ pegsImportBlock pegsUndo s.view).map
          fun d => (d.fClean,existsImportTombstone pegsImport d.view)))=
      some ([pegsImportBlock,coinBlock,genesisBlock],
        some (undoWriteToDisk noKeys noChecksum 10 pegsUndo),some (true,true)) := rfl
  obtain ⟨s,hs,hall⟩ := Option.map_eq_some_iff.mp hfacts
  obtain ⟨hchain,hrest⟩ := Prod.mk.inj hall
  obtain ⟨hfile,hback⟩ := Prod.mk.inj hrest
  obtain ⟨d,hd,hflags⟩ := Option.map_eq_some_iff.mp hback
  obtain ⟨hclean,htomb⟩ := Prod.mk.inj hflags
  have hstep := disconnectTip_eq (smallRules true) noKeys noChecksum hchain rfl hfile
    storable_pegsUndo hd hclean
  refine ⟨⟨d.view,s.index.disconnect (smallRules true).toIndexRules d.delta,s.undoFiles,
    [coinBlock,genesisBlock]⟩,?_,htomb,?_⟩
  · rw [run_append,hs]
    exact congrArg (Option.bind · some) hstep
  · dsimp only
    decide

end Small

end Zdeex.Block
