import Zdeex.Cc.Accesses

namespace Zdeex.Cc.Accesses

open Zdeex.Framework
open Zdeex.Coins
open Zdeex.Block
open Zdeex.Crosschain
open Zdeex.Cc.World

section Tokens

variable (W : World) (T : Uint256)

/-- The outputs behind the token inputs, up to the first transaction that is not found. -/
def reached : List CTxIn → List (CTransaction × Nat)
  | [] => []
  | vin::rest =>
      if W.ismyvin EVAL_TOKENS vin.scriptSig then
        match W.getTransaction vin.prevout.hash with
        | none => []
        | some (vinTx,_) => (vinTx,vin.prevout.n)::reached rest
      else reached rest

def AllFound (vins : List CTxIn) : Prop :=
  ∀vin∈vins,W.ismyvin EVAL_TOKENS vin.scriptSig=true →
    (W.getTransaction vin.prevout.hash).isSome=true

/-- The output that a normal input spends is there, when its transaction is found. -/
def NormalReadable (vin : CTxIn) : Prop :=
  W.isCCInput vin.scriptSig=false →
    ∀p∈W.getTransaction vin.prevout.hash,vin.prevout.n<p.1.vout.length

/-- A creation has readable inputs; a transfer names a key besides that of the contract. -/
def OpretReadable (tx : CTransaction) : Prop :=
  ∀r∈W.validateTokenOpret tx T,
    (r.funcId=chr 'c' → tx.isCoinImport=false →
      (decodeTokenCreateOpRet (lastScript tx)).isSome=true → ∀vin∈tx.vin,NormalReadable W vin) ∧
    (r.funcId≠chr 'c' → 0<(W.filterOutTokensUnspendablePk r.voutPubkeys).length)

def VoutReadable (tx : CTransaction) (v : Nat) : Prop :=
  (World.conditionVout? tx v).isSome=true → OpretReadable W T tx

/-- The inputs spend outputs that are there and can be valued; if all are found, so can
the outputs. -/
def AmountsReadable (valued : CTransaction → Nat → Prop) (tx : CTransaction) : Prop :=
  (∀p∈reached W tx.vin,p.2<p.1.vout.length ∧ valued p.1 p.2) ∧
    (AllFound W tx.vin → ∀v<tx.vout.length-1,VoutReadable W T tx v)

def DeepReadable (tx : CTransaction) (v : Nat) : Prop :=
  (World.conditionVout? tx v).isSome=true →
    AmountsReadable W T (VoutReadable W T) tx ∧ (T=tx.hash → OpretReadable W T tx)

/-- Every output that the validation of a token transaction reads is there, and every
transfer among the transactions that it values names a key. -/
def TokensReadable (site : Site) (tx : CTransaction) : Prop :=
  ¬site.AcceptsAll → tx.vout≠[] → ∀r∈decodeTokenOpRet W.strayPk (lastScript tx),
    (W.getTransaction r.tokenid).isSome=true → r.funcId≠chr 'c' → r.tokenid≠0 →
      AmountsReadable W r.tokenid (DeepReadable W r.tokenid) tx

variable {W T}

theorem behaves_normalInput (pubkey : CPubKey) (vin : CTxIn) :
    Behaves (normalInput W pubkey vin) (pure (W.normalInput pubkey vin))
      (NormalReadable W vin) := by
  unfold normalInput NormalReadable
  by_cases hcc : W.isCCInput vin.scriptSig=true
  · have hzero : W.normalInput pubkey vin=0 := by rw [World.normalInput,if_pos hcc]
    rw [if_pos hcc,hzero]
    exact (Behaves.steady _).congr ⟨fun _ hno => absurd (hcc.symm.trans hno) (by decide),
      fun _ => trivial⟩
  · rw [if_neg hcc]
    rw [Bool.not_eq_true] at hcc
    cases hget : W.getTransaction vin.prevout.hash with
    | none =>
      have hzero : W.normalInput pubkey vin=0 := by
        rw [World.normalInput,hcc,hget]
        rfl
      rw [hzero]
      exact (Behaves.steady _).congr ⟨fun _ _ p hp => (nomatch hp),fun _ => trivial⟩
    | some p =>
      refine (Behaves.needing (Behaves.steady _)).congr ⟨?_,?_⟩
      · rintro ⟨hlen,-⟩ - q hq
        obtain rfl := Option.some.inj hq
        exact hlen
      · intro hall
        exact ⟨hall hcc p rfl,trivial⟩

theorem behaves_totalNormalInputs (pubkey : CPubKey) (vins : List CTxIn) :
    Behaves (totalNormalInputs W pubkey vins) (pure (vins.map (W.normalInput pubkey)).sum)
      (∀vin∈vins,NormalReadable W vin) := by
  induction vins with
  | nil => exact (Behaves.steady _).congr ⟨fun _ vin hvin => (nomatch hvin),fun _ => trivial⟩
  | cons vin rest ih =>
    rw [List.map_cons,List.sum_cons,List.forall_mem_cons]
    have hrest := ih.after (f := fun total => return W.normalInput pubkey vin+total)
      (Behaves.steady (pure (W.normalInput pubkey vin+(rest.map (W.normalInput pubkey)).sum)))
    exact ((behaves_normalInput pubkey vin).after hrest).congr (by simp)

theorem behaves_createdValue (tx : CTransaction) (out : CTxOut) :
    Behaves (createdValue W tx out) (pure (W.createdValue tx out))
      (tx.isCoinImport=false → (decodeTokenCreateOpRet (lastScript tx)).isSome=true →
        ∀vin∈tx.vin,NormalReadable W vin) := by
  unfold createdValue
  by_cases himport : tx.isCoinImport=true
  · rw [if_pos himport]
    exact (Behaves.steady _).congr ⟨fun _ hno => absurd (himport.symm.trans hno) (by decide),
      fun _ => trivial⟩
  · rw [if_neg himport]
    rw [Bool.not_eq_true] at himport
    cases hcreate : decodeTokenCreateOpRet (lastScript tx) with
    | none =>
      have hzero : W.createdValue tx out=0 := by simp [World.createdValue,himport,hcreate]
      rw [hzero]
      exact (Behaves.steady _).congr ⟨fun _ _ hno => absurd hno (by decide),fun _ => trivial⟩
    | some create =>
      have hvalue : W.createdValue tx out=
          if W.ccOutputs tx≤W.totalPubkeyNormalInputs tx (pubkey2pk create.origpubkey) then
            if W.isTokenMarkerVout out then 0 else out.nValue
          else 0 := by
        simp only [World.createdValue,himport,hcreate,Bool.false_eq_true,if_false]
        split_ifs <;> rfl
      rw [hvalue]
      exact ((behaves_totalNormalInputs (pubkey2pk create.origpubkey) tx.vin).after
        (Behaves.steady _)).congr (by simp [himport])

theorem behaves_opretValue (tx : CTransaction) (out : CTxOut) :
    Behaves (opretValue W tx out T) (pure (W.opretValue tx out T)) (OpretReadable W T tx) := by
  unfold opretValue OpretReadable World.opretValue
  cases W.validateTokenOpret tx T with
  | none => exact (Behaves.steady _).congr ⟨fun _ r hr => (nomatch hr),fun _ => trivial⟩
  | some r =>
    by_cases hc : r.funcId=chr 'c'
    · simp only [hc,if_true]
      refine (behaves_createdValue tx out).congr ⟨?_,?_⟩
      · intro hread q hq
        obtain rfl := Option.some.inj hq
        exact ⟨fun _ => hread,fun hno => absurd hc hno⟩
      · intro hall
        exact (hall r rfl).1 hc
    · simp only [hc,if_false]
      refine (Behaves.needing (Behaves.steady _)).congr ⟨?_,?_⟩
      · rintro ⟨hkey,-⟩ q hq
        obtain rfl := Option.some.inj hq
        exact ⟨fun hyes => absurd hyes hc,fun _ => hkey⟩
      · intro hall
        exact ⟨(hall r rfl).2 hc,trivial⟩

theorem behaves_voutValue (tx : CTransaction) (v : Nat) :
    Behaves (voutValue W tx v T) (pure (W.voutValue tx v T)) (VoutReadable W T tx v) := by
  unfold voutValue VoutReadable World.voutValue
  cases World.conditionVout? tx v with
  | none => exact (Behaves.steady _).congr (by simp)
  | some out => exact (behaves_opretValue tx out).congr (by simp)

theorem finds_voutValue (tx : CTransaction) (v : Nat) :
    Finds (pure (W.voutValue tx v T)) (W.voutValue tx v T) := fun _ => rfl

theorem tokenInputs_isSome {value : CTransaction → Nat → Judged Int} {vins : List CTxIn}
    {acc : Int} {s : Option String} :
    (W.tokenInputs value vins acc s).1.isSome=true ↔ AllFound W vins := by
  unfold AllFound
  induction vins generalizing acc s with
  | nil => simp [World.tokenInputs,judged_pure]
  | cons vin rest ih =>
    rw [World.tokenInputs,List.forall_mem_cons]
    by_cases hmine : W.ismyvin EVAL_TOKENS vin.scriptSig=true
    · rw [if_pos hmine]
      cases hget : W.getTransaction vin.prevout.hash with
      | none =>
        refine ⟨fun hno => absurd hno Bool.false_ne_true,fun hall => ?_⟩
        exact absurd (hall.1 hmine) Bool.false_ne_true
      | some p =>
        refine ih.trans ⟨fun hrest => ⟨fun _ => rfl,hrest⟩,And.right⟩
    · rw [if_neg hmine]
      exact ih.trans ⟨fun hrest => ⟨fun hyes => absurd hyes hmine,hrest⟩,And.right⟩

section Amounts

variable {value : CTransaction → Nat → Crashing Int} {counted : CTransaction → Nat → Judged Int}
  {amount : CTransaction → Nat → Int} {valued : CTransaction → Nat → Prop}

theorem finds_tokenInputs (hcounted : ∀tx n,Finds (counted tx n) (amount tx n))
    (vins : List CTxIn) (acc : Int) :
    Finds (W.tokenInputs counted vins acc) (W.tokenInputs counted vins acc none).1 :=
  fun s => World.tokenInputs_steady counted
    (fun tx n t t' => (hcounted tx n t).trans (hcounted tx n t').symm) vins acc s none

theorem behaves_tokenInputs (logs : Bool)
    (hvalue : ∀tx n,Behaves (value tx n) (counted tx n) (valued tx n))
    (hcounted : ∀tx n,Finds (counted tx n) (amount tx n)) (vins : List CTxIn) (acc : Int) :
    Behaves (tokenInputs W logs value vins acc) (W.tokenInputs counted vins acc)
      (∀p∈reached W vins,(logs=true → p.2<p.1.vout.length) ∧ valued p.1 p.2) := by
  induction vins generalizing acc with
  | nil => exact (Behaves.steady _).congr ⟨fun _ p hp => (nomatch hp),fun _ => trivial⟩
  | cons vin rest ih =>
    unfold tokenInputs World.tokenInputs reached
    by_cases hmine : W.ismyvin EVAL_TOKENS vin.scriptSig=true
    · simp only [if_pos hmine]
      cases hget : W.getTransaction vin.prevout.hash with
      | none => exact (Behaves.steady _).congr ⟨fun _ p hp => (nomatch hp),fun _ => trivial⟩
      | some p =>
        rw [List.forall_mem_cons]
        exact (((hvalue p.1 vin.prevout.n).bind (hcounted p.1 vin.prevout.n)
          (ih (acc+amount p.1 vin.prevout.n))).needing).congr and_assoc.symm
    · simp only [if_neg hmine]
      exact ih acc

theorem behaves_tokenOutputs (tx : CTransaction) (vs : List Nat) :
    Behaves (tokenOutputs W tx T vs) (pure (vs.map fun v => W.voutValue tx v T).sum)
      (∀v∈vs,VoutReadable W T tx v) := by
  induction vs with
  | nil => exact (Behaves.steady _).congr ⟨fun _ v hv => (nomatch hv),fun _ => trivial⟩
  | cons v vs ih =>
    rw [List.map_cons,List.sum_cons,List.forall_mem_cons]
    have hrest := ih.after (f := fun outputs => return W.voutValue tx v T+outputs)
      (Behaves.steady (pure (W.voutValue tx v T+(vs.map fun v => W.voutValue tx v T).sum)))
    exact ((behaves_voutValue tx v).after hrest).congr (by simp)

theorem exactAmounts_eq (counted : CTransaction → Nat → Judged Int) (tx : CTransaction) :
    W.exactAmounts counted tx T=
      Framework.whenSome none (W.tokenInputs counted tx.vin 0)
        fun inputs => pure (some (inputs,W.tokenOutputs tx T)) := by
  funext s
  rw [World.exactAmounts,judged_bind,Framework.whenSome]
  rcases W.tokenInputs counted tx.vin 0 s with ⟨_ | inputs,t⟩ <;> rfl

theorem behaves_exactAmounts (hvalue : ∀tx n,Behaves (value tx n) (counted tx n) (valued tx n))
    (hcounted : ∀tx n,Finds (counted tx n) (amount tx n)) (tx : CTransaction) :
    Behaves (exactAmounts W value tx T) (W.exactAmounts counted tx T)
      (AmountsReadable W T valued tx) := by
  rw [exactAmounts_eq]
  have hinputs := behaves_tokenInputs (W := W) true hvalue hcounted tx.vin 0
  have hfinds := finds_tokenInputs (W := W) hcounted tx.vin 0
  have hfound : (W.tokenInputs counted tx.vin 0 none).1.isSome=true ↔ AllFound W tx.vin :=
    tokenInputs_isSome
  refine (hinputs.whenSome hfinds fun inputs _ =>
    (behaves_tokenOutputs tx (List.range (tx.vout.length-1))).after
      (Behaves.steady (pure (some (inputs,W.tokenOutputs tx T))))).congr ?_
  simp only [AmountsReadable,List.mem_range,and_true,true_implies,← hfound,Option.isSome_iff_exists,
    Option.mem_def,forall_exists_index]

theorem finds_exactAmounts (hcounted : ∀tx n,Finds (counted tx n) (amount tx n))
    (tx : CTransaction) :
    Finds (W.exactAmounts counted tx T) (W.exactAmounts counted tx T none).1 := by
  intro s
  exact congrArg (Option.map _) (finds_tokenInputs hcounted tx.vin 0 s)

end Amounts

theorem behaves_shallowAmounts (tx : CTransaction) :
    Behaves (exactAmounts W (fun vinTx n => voutValue W vinTx n T) tx T)
      (W.exactAmounts (fun vinTx n => pure (W.voutValue vinTx n T)) tx T)
      (AmountsReadable W T (VoutReadable W T) tx) :=
  behaves_exactAmounts (fun vinTx n => behaves_voutValue vinTx n) finds_voutValue tx

theorem finds_shallowAmounts (tx : CTransaction) :
    Finds (W.exactAmounts (fun vinTx n => pure (W.voutValue vinTx n T)) tx T)
      (W.shallowAmounts T tx) :=
  finds_exactAmounts finds_voutValue tx

theorem allFound_of_isEqual {tx : CTransaction}
    (h : World.isEqual (W.shallowAmounts T tx)=true) : AllFound W tx.vin := by
  cases hinputs : (W.tokenInputs (fun vinTx n => pure (W.voutValue vinTx n T)) tx.vin 0 none).1 with
  | none =>
    have hnone : W.shallowAmounts T tx=none := congrArg (Option.map _) hinputs
    rw [hnone] at h
    exact absurd h Bool.false_ne_true
  | some inputs =>
    have hsome := congrArg Option.isSome hinputs
    exact tokenInputs_isSome.mp hsome

theorem conditionVout?_lt {tx : CTransaction} {v : Nat} {out : CTxOut}
    (h : World.conditionVout? tx v=some out) : v<tx.vout.length-1 := by
  unfold World.conditionVout? at h
  rw [Option.filter_eq_some_iff] at h
  obtain ⟨hlt,-⟩ := List.getElem?_eq_some_iff.mp h.1
  rwa [List.length_dropLast] at hlt

theorem behaves_isTokensvout (tx : CTransaction) (v : Nat) :
    Behaves (isTokensvout W true T tx v) (W.isTokensvout true T tx v)
      (DeepReadable W T tx v) := by
  unfold isTokensvout World.isTokensvout DeepReadable
  simp only [if_true]
  cases hout : World.conditionVout? tx v with
  | none => exact (Behaves.steady _).congr (by simp)
  | some out =>
    let Skipped : Prop := World.isEqual (W.shallowAmounts T tx)=false ∧ T≠tx.hash
    have hvalue : Behaves (if Skipped then Crashing.steady (pure 0) else opretValue W tx out T)
        (pure (if Skipped then 0 else W.opretValue tx out T))
        (¬Skipped → OpretReadable W T tx) := by
      rw [apply_ite pure]
      exact ((Behaves.steady (pure 0)).ite (behaves_opretValue tx out)).congr (by simp)
    refine ((behaves_shallowAmounts tx).bind (finds_shallowAmounts tx) hvalue).congr ⟨?_,?_⟩
    · rintro ⟨hamounts,hopret⟩ -
      exact ⟨hamounts,fun heq => hopret fun hskip => hskip.2 heq⟩
    · intro hread
      obtain ⟨hamounts,hopret⟩ := hread rfl
      refine ⟨hamounts,fun hskip => ?_⟩
      by_cases heq : T=tx.hash
      · exact hopret heq
      · have hequal : World.isEqual (W.shallowAmounts T tx)=true := by
          by_contra hno
          exact hskip ⟨Bool.not_eq_true _ ▸ hno,heq⟩
        refine hamounts.2 (allFound_of_isEqual hequal) v (conditionVout?_lt hout) ?_
        rw [hout]
        rfl

theorem behaves_tokensExactAmounts (tx : CTransaction) :
    Behaves (tokensExactAmounts W true tx T) (W.tokensExactAmounts true tx T)
      (AmountsReadable W T (DeepReadable W T) tx) :=
  behaves_exactAmounts (fun vinTx n => behaves_isTokensvout vinTx n)
    (fun vinTx n => World.tokenAmount_eq vinTx n) tx

theorem finds_tokensExactAmounts (tx : CTransaction) :
    Finds (W.tokensExactAmounts true tx T) (W.tokensExactAmounts true tx T none).1 :=
  finds_exactAmounts (fun vinTx n => World.tokenAmount_eq vinTx n) tx

theorem behaves_tokensValidate (site : Site) (tx : CTransaction) :
    Behaves (tokensValidate W site tx) (W.tokensValidate site tx) (TokensReadable W site tx) := by
  unfold tokensValidate World.tokensValidate
  refine ((Behaves.steady (pure true)).ite (Behaves.refuseWhen
    (C := ∀r∈decodeTokenOpRet W.strayPk (lastScript tx),
      (W.getTransaction r.tokenid).isSome=true → r.funcId≠chr 'c' → r.tokenid≠0 →
        AmountsReadable W r.tokenid (DeepReadable W r.tokenid) tx) ?_)).congr
    (by simp [TokensReadable])
  cases decodeTokenOpRet W.strayPk (lastScript tx) with
  | none => exact (Behaves.steady _).congr ⟨fun _ r hr => (nomatch hr),fun _ => trivial⟩
  | some r =>
    have hamounts := (behaves_tokensExactAmounts (W := W) (T := r.tokenid) tx).bind
      (f := fun amounts => Crashing.steady (W.validateAmounts tx r amounts))
      (g := W.validateAmounts tx r) (finds_tokensExactAmounts tx) (Behaves.steady _)
    exact ((Behaves.steady _).ite hamounts.refuseWhen).refuseWhen.congr
      (by simp [Option.isSome_iff_ne_none])

end Tokens

section Assets

variable (W : World) (e2 : UInt8)

/-- What the second input spends. -/
def ccvinTx? (tx : CTransaction) : Option CTransaction :=
  match tx.vin with
  | _::vin1::_ =>
      if vin1.prevout.n≠0 then none else (W.getTransaction vin1.prevout.hash).map Prod.fst
  | _ => none

/-- The transaction locks a value for the contract and names its owner. -/
structure IsLocked (funcid : UInt8) (vinTx : CTransaction) : Prop where
  address : spendsOrder funcid=true →
    W.isOrderAddress e2 funcid (W.voutAt vinTx 0).scriptPubKey=true
  owner : (W.getAssetorigaddrs e2 vinTx).isSome=true
  value : (W.voutAt vinTx 0).nValue≠0

/-- It is a bid for the asset with these data. -/
structure IsBid (assetid : Uint256) (vinTx : CTransaction) (q : AssetOpRet) : Prop where
  vout0 : isPayToCryptoCondition (W.voutAt vinTx 0).scriptPubKey=true
  data : decodeAssetTokenOpRet W.strayPk (lastScript vinTx)=some q
  vout1 : q.funcid=chr 'b' → isPayToCryptoCondition (W.voutAt vinTx 1).scriptPubKey=true
  funcid : q.funcid=chr 'b' ∨ q.funcid=chr 'B'
  assetid : assetid=q.assetid

/-- It offers the asset with these data. -/
structure IsAsk (assetid : Uint256) (vinTx : CTransaction) (q : AssetOpRet) : Prop where
  vout0 : (World.conditionVout? vinTx 0).isSome=true
  data : decodeAssetTokenOpRet W.strayPk (lastScript vinTx)=some q
  opret : World.validateAssetOpret q 0 assetid=true

/-- The fill belongs to the order, and its first two outputs share what is locked. -/
structure Splits (tx : CTransaction) (r q : AssetOpRet) (vinTx : CTransaction) : Prop where
  length : 4≤tx.vout.length
  owner : q.origpubkey=r.origpubkey
  locked : (W.voutAt vinTx 0).nValue=toCAmount ((W.voutAt tx 0).nValue+(W.voutAt tx 1).nValue)

/-- A fill of an ask that leaves something to be paid, but no tokens. -/
structure SoldOut (tx : CTransaction) (r q : AssetOpRet) : Prop where
  received : (W.voutAt tx 1).nValue≠0
  paid : (W.voutAt tx 2).nValue≠0
  total : q.price≠0
  price : q.price=toCAmount (r.price+(W.voutAt tx 2).nValue)
  remaining_nValue : r.price≠0
  remaining_assetoshis : (W.voutAt tx 0).nValue=0

/-- An order that is spent has an output; the fill of a bid has a fifth one, and the
fill of an ask does not sell out early. -/
structure OrderReadable (tx : CTransaction) (r : AssetOpRet) (vinTx : CTransaction) : Prop where
  vout0 : spendsOrder r.funcid=true → 0<vinTx.vout.length
  fillbuy : r.funcid=chr 'B' → IsLocked W e2 r.funcid vinTx → ∀q,IsBid W r.assetid vinTx q →
    Splits W tx r q vinTx → 4<tx.vout.length
  fillsell : r.funcid=chr 'S' → IsLocked W e2 r.funcid vinTx → ∀q,IsAsk W r.assetid vinTx q →
    Splits W tx r q vinTx → ¬SoldOut W tx r q

/-- The checks that come first. -/
structure Entered (tx : CTransaction) (r : AssetOpRet) : Prop where
  asset : r.funcid≠chr 'o' → r.funcid≠chr 'x' → (W.getTransaction r.assetid).isSome=true
  asset2 : r.funcid≠chr 'o' → r.funcid≠chr 'x' → r.assetid2≠0 →
    (W.getTransaction r.assetid2).isSome=true
  vin0 : (tx.vin.head?.elim false fun vin => W.isCCInput vin.scriptSig)=false
  vouts : 2≤tx.vout.length
  assetid : r.assetid≠0

/-- Every output that the validation of an asset transaction reads is there, every
transfer that it values names a key, and nothing is divided by zero. -/
def AssetsReadable (tx : CTransaction) : Prop :=
  ∀r∈decodeAssetTokenOpRet W.strayPk (lastScript tx),Entered W tx r →
    (∀p∈reached W tx.vin,VoutReadable W r.assetid p.1 p.2) ∧
      (AllFound W tx.vin → ∀vinTx∈ccvinTx? W tx,OrderReadable W e2 tx r vinTx)

variable {W e2} {funcid : UInt8} {tx : CTransaction} {r : AssetOpRet}

theorem behaves_divide (a b : Int) : Behaves (divide a b) (pure (a.tdiv b)) (b≠0) :=
  (Behaves.steady _).needing.congr (and_iff_left trivial)

theorem validateRemainder_true {remaining_units remaining_nValue orig_nValue received_nValue
    paidunits totalunits : Int} :
    validateRemainder remaining_units remaining_nValue orig_nValue received_nValue paidunits
      totalunits=true ↔
      (orig_nValue≠0 ∧ received_nValue≠0 ∧ paidunits≠0 ∧ totalunits≠0) ∧
        totalunits=toCAmount (remaining_units+paidunits) ∧
          orig_nValue=toCAmount (remaining_nValue+received_nValue) := by
  unfold validateRemainder
  split_ifs with hzero htotal horig
  · simp only [false_iff]
    rintro ⟨⟨h1,h2,h3,h4⟩,-⟩
    simp [h1,h2,h3,h4] at hzero
  · simp [htotal]
  · simp [horig]
  · push Not at hzero htotal horig
    exact ⟨fun _ => ⟨hzero,htotal,horig⟩,fun _ => rfl⟩

theorem behaves_newunitprice (c : Prop) [Decidable c] (a b : Int) :
    Behaves (newunitprice c a b) (pure (if c then a.tdiv b else 0)) (c → b≠0) := by
  unfold newunitprice
  rw [apply_ite pure]
  exact ((behaves_divide a b).ite (Behaves.steady (pure 0))).congr (by simp)

theorem behaves_validateBidRemainder (remaining_units remaining_nValue orig_nValue received_nValue
    paidunits totalunits : Int) :
    Behaves
      (validateBidRemainder remaining_units remaining_nValue orig_nValue received_nValue paidunits
        totalunits)
      (pure (Cc.validateBidRemainder remaining_units remaining_nValue orig_nValue received_nValue
        paidunits totalunits)) True := by
  unfold validateBidRemainder Cc.validateBidRemainder
  by_cases hvalid : validateRemainder remaining_units remaining_nValue orig_nValue received_nValue
      paidunits totalunits=true
  · obtain ⟨⟨-,-,hpaid,htotal⟩,-⟩ := validateRemainder_true.mp hvalid
    rw [hvalid,if_neg (by decide),Bool.true_and]
    exact ((behaves_divide orig_nValue totalunits).after
      ((behaves_divide received_nValue paidunits).after
      ((behaves_newunitprice _ remaining_nValue remaining_units).after (Behaves.steady _)))).congr
      (by simp [hpaid,htotal])
  · rw [Bool.not_eq_true] at hvalid
    rw [if_pos hvalid,hvalid,Bool.false_and]
    exact Behaves.steady _

theorem behaves_validateAskRemainder (remaining_nValue remaining_assetoshis orig_assetoshis
    received_assetoshis paid_nValue total_nValue : Int) :
    Behaves
      (validateAskRemainder remaining_nValue remaining_assetoshis orig_assetoshis
        received_assetoshis paid_nValue total_nValue)
      (pure (Cc.validateAskRemainder remaining_nValue remaining_assetoshis orig_assetoshis
        received_assetoshis paid_nValue total_nValue))
      (validateRemainder remaining_nValue remaining_assetoshis orig_assetoshis received_assetoshis
        paid_nValue total_nValue=true → remaining_nValue≠0 → remaining_assetoshis≠0) := by
  unfold validateAskRemainder Cc.validateAskRemainder
  by_cases hvalid : validateRemainder remaining_nValue remaining_assetoshis orig_assetoshis
      received_assetoshis paid_nValue total_nValue=true
  · obtain ⟨⟨horig,hreceived,-,-⟩,-⟩ := validateRemainder_true.mp hvalid
    rw [hvalid,if_neg (by decide),Bool.true_and]
    exact ((behaves_divide total_nValue orig_assetoshis).after
      ((behaves_divide paid_nValue received_assetoshis).after
      ((behaves_newunitprice _ remaining_nValue remaining_assetoshis).after
        (Behaves.steady _)))).congr
      (by simp [horig,hreceived])
  · rw [Bool.not_eq_true] at hvalid
    rw [if_pos hvalid,hvalid,Bool.false_and]
    exact (Behaves.steady _).congr (by simp)

theorem finds_assetValidateCCvin (tx : CTransaction) :
    Finds (W.assetValidateCCvin e2 funcid tx) (W.assetValidateCCvin e2 funcid tx none).1 := by
  intro s
  unfold World.assetValidateCCvin
  rcases tx.vin with _ | ⟨vin0,_ | ⟨vin1,rest⟩⟩
  · rfl
  · rfl
  · dsimp only
    rcases W.getTransaction vin1.prevout.hash with _ | p
    · unfold failIf refuseWhen
      split_ifs <;> rfl
    · dsimp only
      rcases W.getAssetorigaddrs e2 p.1 with _ | addrs
      · unfold failIf refuseWhen
        split_ifs <;> rfl
      · unfold failIf refuseWhen
        split_ifs <;> rfl

/-- What is found is a locked value and its owner. -/
theorem mem_assetValidateCCvin {vin : World.CCvin} :
    vin∈(W.assetValidateCCvin e2 funcid tx none).1 ↔
      vin.vinTx∈ccvinTx? W tx ∧ IsLocked W e2 funcid vin.vinTx ∧
        W.getAssetorigaddrs e2 vin.vinTx=some (vin.origCCaddr,vin.origaddr) ∧
          vin.nValue=(W.voutAt vin.vinTx 0).nValue := by
  have hspends : spendsOrder funcid=true ↔
      (funcid=chr 'S' ∨ funcid=chr 'x' ∨ funcid=chr 'B' ∨ funcid=chr 'o') := decide_eq_true_iff
  rw [Option.mem_def]
  unfold World.assetValidateCCvin ccvinTx?
  rcases tx.vin with _ | ⟨vin0,_ | ⟨vin1,rest⟩⟩
  · simp [refuse]
  · simp [refuse]
  · dsimp only
    rw [failIf_some]
    by_cases hn : vin1.prevout.n≠0
    · simp [hn]
    · rw [if_neg hn]
      rcases hget : W.getTransaction vin1.prevout.hash with _ | ⟨vinTx,b⟩
      · simp [refuse]
      · dsimp only
        rw [failIf_some,← hspends]
        rcases haddrs : W.getAssetorigaddrs e2 vinTx with _ | ⟨origCCaddr,origaddr⟩
        · constructor
          · rintro ⟨-,-,hno⟩
            cases hno
          · rintro ⟨hvin,-,hsome,-⟩
            obtain rfl : vinTx=vin.vinTx := Option.some.inj hvin
            rw [haddrs] at hsome
            cases hsome
        · dsimp only
          rw [failIf_some]
          constructor
          · rintro ⟨-,haddress,hvalue,hvin⟩
            obtain rfl := Option.some.inj hvin
            refine ⟨rfl,⟨fun hyes => ?_,by rw [haddrs]; rfl,hvalue⟩,haddrs,rfl⟩
            by_contra hno
            exact haddress ⟨hyes,Bool.not_eq_true _ ▸ hno⟩
          · rintro ⟨hvin,hlocked,hsome,hvalue⟩
            obtain rfl : vinTx=vin.vinTx := Option.some.inj hvin
            obtain ⟨rfl,rfl⟩ := Prod.mk.inj (Option.some.inj (haddrs.symm.trans hsome))
            refine ⟨hn,fun hno => ?_,hlocked.value,?_⟩
            · exact absurd (hlocked.address hno.1) (by rw [hno.2]; decide)
            · rw [← hvalue]
              rfl

theorem length_pos_of_decode {vinTx : CTransaction} {q : AssetOpRet}
    (h : decodeAssetTokenOpRet W.strayPk (lastScript vinTx)=some q) : 0<vinTx.vout.length := by
  apply List.length_pos_of_ne_nil
  intro hempty
  rw [lastScript,hempty] at h
  cases h

theorem getAssetorigaddrs_decode {vinTx : CTransaction}
    (h : (W.getAssetorigaddrs e2 vinTx).isSome=true) :
    ∃q,decodeAssetTokenOpRet W.strayPk (lastScript vinTx)=some q := by
  cases hdec : decodeAssetTokenOpRet W.strayPk (lastScript vinTx) with
  | none =>
    rw [World.getAssetorigaddrs,hdec] at h
    cases h
  | some q => exact ⟨q,rfl⟩

theorem behaves_assetValidateCCvin (tx : CTransaction) :
    Behaves (assetValidateCCvin W e2 funcid tx) (W.assetValidateCCvin e2 funcid tx)
      (∀vinTx∈ccvinTx? W tx,spendsOrder funcid=true → 0<vinTx.vout.length) := by
  unfold assetValidateCCvin World.assetValidateCCvin ccvinTx?
  rcases tx.vin with _ | ⟨vin0,_ | ⟨vin1,rest⟩⟩
  · exact (Behaves.steady _).congr (by simp)
  · exact (Behaves.steady _).congr (by simp)
  · dsimp only
    rcases W.getTransaction vin1.prevout.hash with _ | ⟨vinTx,b⟩
    · exact (Behaves.steady _).refuseWhen.congr (by simp)
    · dsimp only
      cases haddrs : W.getAssetorigaddrs e2 vinTx with
      | none => exact (Behaves.steady _).refuseWhen.needing.refuseWhen.congr (by simp)
      | some addrs =>
        obtain ⟨q,hdec⟩ := getAssetorigaddrs_decode (congrArg Option.isSome haddrs)
        have hlen := length_pos_of_decode hdec
        exact (Behaves.steady _).refuseWhen.needing.refuseWhen.needing.refuseWhen.congr
          (by simp [hlen])

theorem length_of_locked {vinTx : CTransaction} (h : IsLocked W e2 funcid vinTx) :
    0<vinTx.vout.length := by
  obtain ⟨q,hdec⟩ := getAssetorigaddrs_decode h.owner
  exact length_pos_of_decode hdec

/-- A script with data behind OP_RETURN is not a condition. -/
theorem isPayToCryptoCondition_of_decode {script : List UInt8} {q : AssetOpRet}
    (h : decodeAssetTokenOpRet W.strayPk script=some q) : isPayToCryptoCondition script=false := by
  have hdata : Script.getOpReturnData script≠none := by
    intro hnone
    rw [decodeAssetTokenOpRet,decodeTokenOpRet,opretData,hnone] at h
    cases h
  unfold isPayToCryptoCondition
  unfold Script.getOpReturnData at hdata
  cases hop : Script.getOp script with
  | none => rfl
  | some p =>
    rw [hop] at hdata
    dsimp only at hdata ⊢
    by_cases hreturn : p.1=Script.OP_RETURN
    · rw [if_neg]
      rw [hreturn]
      decide
    · rw [if_neg hreturn] at hdata
      exact absurd rfl hdata

/-- A bid whose first output is a condition has a second one. -/
theorem length_of_decode {vinTx : CTransaction} {q : AssetOpRet}
    (h : decodeAssetTokenOpRet W.strayPk (lastScript vinTx)=some q)
    (hcc : isPayToCryptoCondition (W.voutAt vinTx 0).scriptPubKey=true) : 1<vinTx.vout.length := by
  have hpos := length_pos_of_decode h
  have hscript := isPayToCryptoCondition_of_decode h
  by_contra hle
  obtain ⟨out,hout⟩ := List.length_eq_one_iff.mp (show vinTx.vout.length=1 by omega)
  have hlast : lastScript vinTx=(W.voutAt vinTx 0).scriptPubKey := by
    rw [lastScript,World.voutAt,hout]
    rfl
  rw [hlast,hcc] at hscript
  cases hscript

theorem behaves_buyvinOrder {refassetid : Uint256} {vin : World.CCvin}
    (hlen : 0<vin.vinTx.vout.length) :
    Behaves (buyvinOrder W refassetid vin) (W.buyvinOrder refassetid vin) True := by
  unfold buyvinOrder World.buyvinOrder
  cases hdec : decodeAssetTokenOpRet W.strayPk (lastScript vin.vinTx) with
  | none => exact (Behaves.steady _).refuseWhen.needing.congr (by simp [hlen])
  | some q =>
    refine (Behaves.steady _).refuseWhen.refuseWhen.refuseWhen.needing.refuseWhen.needing.congr ?_
    simp only [hlen,true_and,implies_true,and_true,iff_true]
    intro hcc _
    exact length_of_decode hdec (Bool.not_eq_false _ ▸ hcc)

theorem finds_buyvinOrder {refassetid : Uint256} (vin : World.CCvin) :
    Finds (W.buyvinOrder refassetid vin) (W.buyvinOrder refassetid vin none).1 := by
  intro s
  unfold World.buyvinOrder
  rcases decodeAssetTokenOpRet W.strayPk (lastScript vin.vinTx) with _ | q
  · unfold failIf refuseWhen
    split_ifs <;> rfl
  · dsimp only
    unfold failIf refuseWhen
    split_ifs <;> rfl

theorem mem_buyvinOrder {refassetid : Uint256} {vin : World.CCvin} {order : World.Order} :
    order∈(W.buyvinOrder refassetid vin none).1 ↔
      ∃q,IsBid W refassetid vin.vinTx q ∧
        order=⟨vin.nValue,q.price,q.origpubkey,vin.origCCaddr,vin.origaddr⟩ := by
  unfold World.buyvinOrder
  rw [Option.mem_def,failIf_some,Bool.not_eq_false]
  cases hdec : decodeAssetTokenOpRet W.strayPk (lastScript vin.vinTx) with
  | none =>
    constructor
    · rintro ⟨-,hno⟩
      cases hno
    · rintro ⟨q,hbid,-⟩
      exact absurd (hdec.symm.trans hbid.data) (by simp)
  | some q =>
    dsimp only
    rw [failIf_some,failIf_some,failIf_some,not_and,Bool.not_eq_false,not_not]
    constructor
    · rintro ⟨hvout0,hvout1,hfuncid,hid,horder⟩
      exact ⟨q,⟨hvout0,hdec,hvout1,by tauto,hid⟩,(Option.some.inj horder).symm⟩
    · rintro ⟨q',hbid,rfl⟩
      obtain rfl := Option.some.inj (hdec.symm.trans hbid.data)
      have hfuncid := hbid.funcid
      exact ⟨hbid.vout0,hbid.vout1,by tauto,hbid.assetid,rfl⟩

theorem finds_sellvinOrder {assetid : Uint256} (vin : World.CCvin) :
    Finds (W.sellvinOrder assetid vin) (W.sellvinOrder assetid vin none).1 := by
  intro s
  unfold World.sellvinOrder
  rcases W.isAssetvout vin.vinTx 0 assetid with _ | p
  · rfl
  · dsimp only
    unfold failIf refuseWhen
    split_ifs <;> rfl

theorem mem_sellvinOrder {assetid : Uint256} {vin : World.CCvin} {order : World.Order}
    (hvalue : vin.nValue=(W.voutAt vin.vinTx 0).nValue) (hlocked : vin.nValue≠0) :
    order∈(W.sellvinOrder assetid vin none).1 ↔
      ∃q,IsAsk W assetid vin.vinTx q ∧
        order=⟨vin.nValue,q.price,q.origpubkey,vin.origCCaddr,vin.origaddr⟩ := by
  unfold World.sellvinOrder World.isAssetvout
  rw [Option.mem_def]
  cases hout : World.conditionVout? vin.vinTx 0 with
  | none =>
    constructor
    · intro hno
      cases hno
    · rintro ⟨q,hask,-⟩
      have hno := hask.vout0
      rw [hout] at hno
      cases hno
  | some out =>
    have hnValue : out.nValue=vin.nValue := by
      rw [hvalue,World.voutAt,List.getD_eq_getElem?_getD,(World.conditionVout?_some hout).1,
        Option.getD_some]
    cases hdec : decodeAssetTokenOpRet W.strayPk (lastScript vin.vinTx) with
    | none =>
      constructor
      · intro hno
        cases hno
      · rintro ⟨q,hask,-⟩
        exact absurd (hdec.symm.trans hask.data) (by simp)
    | some q =>
      dsimp only
      by_cases hopret : World.validateAssetOpret q 0 assetid=true
      · rw [if_pos hopret]
        dsimp only
        rw [failIf_some,hnValue]
        constructor
        · rintro ⟨-,horder⟩
          exact ⟨q,⟨by rw [hout]; rfl,hdec,hopret⟩,(Option.some.inj horder).symm⟩
        · rintro ⟨q',hask,rfl⟩
          obtain rfl := Option.some.inj (hdec.symm.trans hask.data)
          exact ⟨hlocked,rfl⟩
      · rw [if_neg hopret]
        constructor
        · intro hno
          cases hno
        · rintro ⟨q',hask,-⟩
          obtain rfl := Option.some.inj (hdec.symm.trans hask.data)
          exact absurd hask.opret hopret

/-- Every order that is found is one at the second input, and the other way around. -/
theorem forall_mem_order {read : World.CCvin → Judged (Option World.Order)}
    {IsOrder : CTransaction → AssetOpRet → Prop} {F : World.Order → Prop}
    {G : CTransaction → AssetOpRet → Prop} (hread : ∀vin,Finds (read vin) (read vin none).1)
    (hmem : ∀(vin : World.CCvin) order,vin.nValue=(W.voutAt vin.vinTx 0).nValue → vin.nValue≠0 →
      (order∈(read vin none).1 ↔ ∃q,IsOrder vin.vinTx q ∧
        order=⟨vin.nValue,q.price,q.origpubkey,vin.origCCaddr,vin.origaddr⟩))
    (hFG : ∀(order : World.Order) vinTx (q : AssetOpRet),
      order.nValue=(W.voutAt vinTx 0).nValue → order.nValue≠0 → order.price=q.price →
      order.origpubkey=q.origpubkey → (F order ↔ G vinTx q)) :
    (∀order∈(Framework.whenSome none (W.assetValidateCCvin e2 funcid tx) read none).1,F order) ↔
      ∀vinTx∈ccvinTx? W tx,IsLocked W e2 funcid vinTx → ∀q,IsOrder vinTx q → G vinTx q := by
  simp only [Option.mem_def,whenSome_some]
  constructor
  · intro hall vinTx hvinTx hlocked q hq
    obtain ⟨addrs,haddrs⟩ := Option.isSome_iff_exists.mp hlocked.owner
    let vin : World.CCvin := ⟨(W.voutAt vinTx 0).nValue,vinTx,addrs.1,addrs.2⟩
    have hvin : (W.assetValidateCCvin e2 funcid tx none).1=some vin :=
      mem_assetValidateCCvin.mpr ⟨hvinTx,hlocked,haddrs,rfl⟩
    let order : World.Order := ⟨vin.nValue,q.price,q.origpubkey,vin.origCCaddr,vin.origaddr⟩
    have horder : (read vin none).1=some order :=
      (hmem vin order rfl hlocked.value).mpr ⟨q,hq,rfl⟩
    exact (hFG order vinTx q rfl hlocked.value rfl rfl).mp
      (hall order ⟨vin,hvin,(hread vin _).trans horder⟩)
  · rintro hall order ⟨vin,hvin,horder⟩
    obtain ⟨hvinTx,hlocked,-,hvalue⟩ := mem_assetValidateCCvin.mp hvin
    rw [hread] at horder
    have hnull : vin.nValue≠0 := hvalue ▸ hlocked.value
    obtain ⟨q,hq,rfl⟩ := (hmem vin order hvalue hnull).mp horder
    exact (hFG _ vin.vinTx q hvalue hnull rfl rfl).mpr (hall vin.vinTx hvinTx hlocked q hq)

theorem finds_assetValidateBuyvin (refassetid : Uint256) :
    Finds (W.assetValidateBuyvin e2 funcid tx refassetid)
      (W.assetValidateBuyvin e2 funcid tx refassetid none).1 :=
  (finds_assetValidateCCvin tx).whenSome finds_buyvinOrder

theorem behaves_assetValidateBuyvin (refassetid : Uint256) :
    Behaves (assetValidateBuyvin W e2 funcid tx refassetid)
      (W.assetValidateBuyvin e2 funcid tx refassetid)
      (∀vinTx∈ccvinTx? W tx,spendsOrder funcid=true → 0<vinTx.vout.length) := by
  refine ((behaves_assetValidateCCvin tx).whenSome (finds_assetValidateCCvin tx)
    fun vin hvin => behaves_buyvinOrder ?_).congr (by simp)
  exact length_of_locked (mem_assetValidateCCvin.mp hvin).2.1

theorem finds_assetValidateSellvin (assetid : Uint256) :
    Finds (W.assetValidateSellvin e2 funcid tx assetid)
      (W.assetValidateSellvin e2 funcid tx assetid none).1 :=
  (finds_assetValidateCCvin tx).whenSome finds_sellvinOrder

theorem behaves_assetValidateSellvin (assetid : Uint256) :
    Behaves (assetValidateSellvin W e2 funcid tx assetid)
      (W.assetValidateSellvin e2 funcid tx assetid)
      (∀vinTx∈ccvinTx? W tx,spendsOrder funcid=true → 0<vinTx.vout.length) :=
  ((behaves_assetValidateCCvin tx).whenSome (finds_assetValidateCCvin tx)
    fun _ _ => Behaves.steady _).congr (by simp)

theorem behaves_fillbuy (inputs : Int) (order : World.Order) :
    Behaves (fillbuy W tx r inputs order) (W.fillbuy tx r inputs order)
      (4≤tx.vout.length → order.origpubkey=r.origpubkey →
        order.nValue=toCAmount ((W.voutAt tx 0).nValue+(W.voutAt tx 1).nValue) →
          4<tx.vout.length) := by
  have hremainder := (behaves_validateBidRemainder r.price (W.voutAt tx 0).nValue order.nValue
    (W.voutAt tx 1).nValue (W.voutAt tx 2).nValue order.price).after
    (f := fun remainder =>
      Crashing.refuseIf (remainder=false) "mismatched remainder for fillbuy" <|
        Crashing.refuseIf (r.price≠0 ∧
          W.constrainVout (W.voutAt tx 0) true (some (W.unspendableCCaddr EVAL_ASSETS)) 0=false)
          "mismatched vout0 AssetsCCaddr for fillbuy"
          (Crashing.steady (W.preventCC tx none (some 4))))
    (Behaves.steady _).refuseWhen.refuseWhen
  unfold fillbuy World.fillbuy
  refine ((Behaves.steady _).refuseWhen.refuseWhen.ite
    hremainder.refuseWhen.refuseWhen.refuseWhen).needing.refuseWhen.needing.refuseWhen.refuseWhen
    |>.congr ?_
  simp only [not_lt,not_not,implies_true,and_true]
  exact ⟨fun h hlen howner hlocked => (h hlen howner).2 hlocked,
    fun h hlen howner => ⟨by omega,h hlen howner⟩⟩

theorem behaves_fillsell (order : World.Order) :
    Behaves (fillsell W e2 tx r order) (W.fillsell e2 tx r order)
      (4≤tx.vout.length → order.origpubkey=r.origpubkey →
        order.nValue=toCAmount ((W.voutAt tx 0).nValue+(W.voutAt tx 1).nValue) →
          validateRemainder r.price (W.voutAt tx 0).nValue order.nValue (W.voutAt tx 1).nValue
            (W.voutAt tx 2).nValue order.price=true → r.price≠0 → (W.voutAt tx 0).nValue≠0) := by
  have hremainder := (behaves_validateAskRemainder r.price (W.voutAt tx 0).nValue order.nValue
    (W.voutAt tx 1).nValue (W.voutAt tx 2).nValue order.price).after
    (f := fun remainder =>
      Crashing.refuseIf (remainder=false) "mismatched remainder for fillask" <|
        Crashing.refuseIf (W.constrainVout (W.voutAt tx 1) true none 0=false)
          "normal vout1 for fillask" <|
        Crashing.refuseIf (W.constrainVout (W.voutAt tx 2) false (some order.origaddr) 0=false)
          "normal vout1 for fillask" <|
        Crashing.refuseIf (W.constrainVout (W.voutAt tx 3) true
          (some (W.getCCaddress EVAL_ASSETS (pubkey2pk r.origpubkey))) 10000=false)
          "invalid marker for original pubkey" <|
        Crashing.refuseIf (r.price≠0 ∧ W.constrainVout (W.voutAt tx 0) true
          (some (W.getTokensCCaddress EVAL_ASSETS e2 (W.unspendablePk EVAL_ASSETS))) 0=false)
          "mismatched vout0 assets dual unspendable CCaddr for fill sell"
          (Crashing.steady (W.preventCC tx none none)))
    (Behaves.steady _).refuseWhen.refuseWhen.refuseWhen.refuseWhen.refuseWhen
  unfold fillsell World.fillsell
  refine hremainder.refuseWhen.needing.refuseWhen.refuseWhen.congr ?_
  simp only [not_lt,not_not,implies_true,and_true]
  exact ⟨fun h hlen howner hlocked => (h hlen howner).2 hlocked,
    fun h hlen howner => ⟨by omega,h hlen howner⟩⟩

theorem orderReadable_of_idle {vinTx : CTransaction} (h : spendsOrder r.funcid=false) :
    OrderReadable W e2 tx r vinTx := by
  refine ⟨fun hyes => ?_,fun hB => ?_,fun hS => ?_⟩
  · exact absurd (h.symm.trans hyes) (by decide)
  · rw [hB] at h
    exact absurd h (by decide)
  · rw [hS] at h
    exact absurd h (by decide)

theorem orderReadable_of_cancel {vinTx : CTransaction} (hB : r.funcid≠chr 'B')
    (hS : r.funcid≠chr 'S') :
    OrderReadable W e2 tx r vinTx ↔ (spendsOrder r.funcid=true → 0<vinTx.vout.length) :=
  ⟨OrderReadable.vout0,fun h => ⟨h,fun hyes => absurd hyes hB,fun hyes => absurd hyes hS⟩⟩

/-- What the fill of a bid reads. -/
theorem fillbuy_readable {vinTx : CTransaction} (hB : r.funcid=chr 'B') :
    OrderReadable W e2 tx r vinTx ↔ (spendsOrder r.funcid=true → 0<vinTx.vout.length) ∧
      (IsLocked W e2 r.funcid vinTx → ∀q,IsBid W r.assetid vinTx q →
        Splits W tx r q vinTx → 4<tx.vout.length) := by
  refine ⟨fun h => ⟨h.vout0,h.fillbuy hB⟩,fun h => ⟨h.1,fun _ => h.2,fun hS => ?_⟩⟩
  exact absurd (hB.symm.trans hS) (by decide)

theorem fillsell_readable {vinTx : CTransaction} (hS : r.funcid=chr 'S') :
    OrderReadable W e2 tx r vinTx ↔ (spendsOrder r.funcid=true → 0<vinTx.vout.length) ∧
      (IsLocked W e2 r.funcid vinTx → ∀q,IsAsk W r.assetid vinTx q →
        Splits W tx r q vinTx → ¬SoldOut W tx r q) := by
  refine ⟨fun h => ⟨h.vout0,h.fillsell hS⟩,fun h => ⟨h.1,fun hB => ?_,fun _ => h.2⟩⟩
  exact absurd (hB.symm.trans hS) (by decide)

theorem fill_splits {order : World.Order} {vinTx : CTransaction} {q : AssetOpRet} {P : Prop}
    (hnValue : order.nValue=(W.voutAt vinTx 0).nValue) (howner : order.origpubkey=q.origpubkey) :
    (4≤tx.vout.length → order.origpubkey=r.origpubkey →
      order.nValue=toCAmount ((W.voutAt tx 0).nValue+(W.voutAt tx 1).nValue) → P) ↔
      (Splits W tx r q vinTx → P) := by
  rw [hnValue,howner]
  exact ⟨fun h hsplits => h hsplits.length hsplits.owner hsplits.locked,
    fun h hlen hpk hlocked => h ⟨hlen,hpk,hlocked⟩⟩

theorem soldOut_iff {order : World.Order} {q : AssetOpRet} (hnull : order.nValue≠0)
    (hprice : order.price=q.price)
    (hlocked : order.nValue=toCAmount ((W.voutAt tx 0).nValue+(W.voutAt tx 1).nValue)) :
    (validateRemainder r.price (W.voutAt tx 0).nValue order.nValue (W.voutAt tx 1).nValue
      (W.voutAt tx 2).nValue order.price=true → r.price≠0 → (W.voutAt tx 0).nValue≠0) ↔
      ¬SoldOut W tx r q := by
  rw [validateRemainder_true,hprice]
  constructor
  · intro h hsold
    exact h ⟨⟨hnull,hsold.received,hsold.paid,hsold.total⟩,hsold.price,hlocked⟩
      hsold.remaining_nValue hsold.remaining_assetoshis
  · rintro h ⟨⟨-,hreceived,hpaid,htotal⟩,hsum,-⟩ hremaining hzero
    exact h ⟨hreceived,hpaid,htotal,hsum,hremaining,hzero⟩

theorem behaves_validateAssetFuncid (hlen : 0<tx.vout.length) (inputs : Int) :
    Behaves (validateAssetFuncid W e2 tx r inputs) (W.validateAssetFuncid e2 tx r inputs)
      (∀vinTx∈ccvinTx? W tx,OrderReadable W e2 tx r vinTx) := by
  have hidle : spendsOrder r.funcid=false →
      (True ↔ ∀vinTx∈ccvinTx? W tx,OrderReadable W e2 tx r vinTx) := fun hno =>
    ⟨fun _ _ _ => orderReadable_of_idle hno,fun _ => trivial⟩
  have hcancel : r.funcid≠chr 'B' → r.funcid≠chr 'S' → ∀orders : Option World.Order,
      (((∀vinTx∈ccvinTx? W tx,spendsOrder r.funcid=true → 0<vinTx.vout.length) ∧
          ∀order∈orders,0<tx.vout.length ∧ True) ↔
        ∀vinTx∈ccvinTx? W tx,OrderReadable W e2 tx r vinTx) := by
    intro hB hS orders
    simp only [orderReadable_of_cancel hB hS]
    exact ⟨And.left,fun h => ⟨h,fun _ _ => ⟨hlen,trivial⟩⟩⟩
  unfold validateAssetFuncid World.validateAssetFuncid
  by_cases hb : r.funcid=chr 'b'
  · exact ((Behaves.steady _).congr (hidle (by rw [hb]; decide))).ite_pos hb
  refine Behaves.ite_neg hb ?_
  by_cases ho : r.funcid=chr 'o'
  · refine Behaves.ite_pos ho (((behaves_assetValidateBuyvin r.assetid).whenSome
      (finds_assetValidateBuyvin r.assetid) fun _ _ => (Behaves.steady _).needing).congr ?_)
    exact hcancel (by rw [ho]; decide) (by rw [ho]; decide) _
  refine Behaves.ite_neg ho ?_
  by_cases hB : r.funcid=chr 'B'
  · refine Behaves.ite_pos hB (((behaves_assetValidateBuyvin r.assetid).whenSome
      (finds_assetValidateBuyvin r.assetid) fun order _ => behaves_fillbuy inputs order).congr ?_)
    simp only [fillbuy_readable hB,forall₂_and]
    exact and_congr_right' (forall_mem_order finds_buyvinOrder (fun _ _ _ _ => mem_buyvinOrder)
      fun order vinTx q hnValue _ _ howner => fill_splits hnValue howner)
  refine Behaves.ite_neg hB ?_
  by_cases hs : r.funcid=chr 's'
  · exact ((Behaves.steady _).congr (hidle (by rw [hs]; decide))).ite_pos hs
  refine Behaves.ite_neg hs ?_
  by_cases hx : r.funcid=chr 'x'
  · refine Behaves.ite_pos hx (((behaves_assetValidateSellvin r.assetid).whenSome
      (finds_assetValidateSellvin r.assetid) fun _ _ => (Behaves.steady _).needing).congr ?_)
    exact hcancel hB (by rw [hx]; decide) _
  refine Behaves.ite_neg hx ?_
  by_cases hS : r.funcid=chr 'S'
  · refine Behaves.ite_pos hS (((behaves_assetValidateSellvin r.assetid).whenSome
      (finds_assetValidateSellvin r.assetid) fun order _ => behaves_fillsell order).congr ?_)
    simp only [fillsell_readable hS,forall₂_and]
    refine and_congr_right' (forall_mem_order finds_sellvinOrder (fun _ _ => mem_sellvinOrder)
      fun order vinTx q hnValue hnull hprice howner => ?_)
    rw [← fill_splits hnValue howner]
    exact forall₃_congr fun _ _ hlocked => soldOut_iff hnull hprice hlocked
  refine Behaves.ite_neg hS ?_
  have hno : spendsOrder r.funcid=false := by simp [spendsOrder,ho,hB,hx,hS]
  exact ((Behaves.steady _).ite (Behaves.steady _)).congr (by simpa using hidle hno)

/-- The checks of a fill come after the sum of the token inputs. -/
theorem behaves_assetInputs (hlen : 0<tx.vout.length) :
    Behaves
      (Crashing.whenSome false
        (tokenInputs W false (fun vinTx n => voutValue W vinTx n r.assetid) tx.vin 0)
        (validateAssetFuncid W e2 tx r))
      (Framework.whenSome false
        (W.tokenInputs (fun vinTx n => pure (W.voutValue vinTx n r.assetid)) tx.vin 0)
        (W.validateAssetFuncid e2 tx r))
      ((∀p∈reached W tx.vin,VoutReadable W r.assetid p.1 p.2) ∧
        (AllFound W tx.vin → ∀vinTx∈ccvinTx? W tx,OrderReadable W e2 tx r vinTx)) := by
  let counted : CTransaction → Nat → Judged Int := fun vinTx n =>
    pure (W.voutValue vinTx n r.assetid)
  have hcounted : ∀vinTx n,Finds (counted vinTx n) (W.voutValue vinTx n r.assetid) :=
    finds_voutValue
  have hinputs := behaves_tokenInputs (W := W) false
    (fun vinTx n => behaves_voutValue (T := r.assetid) vinTx n) hcounted tx.vin 0
  have hfound : (W.tokenInputs counted tx.vin 0 none).1.isSome=true ↔ AllFound W tx.vin :=
    tokenInputs_isSome
  refine (hinputs.whenSome (finds_tokenInputs hcounted tx.vin 0) fun inputs _ =>
    behaves_validateAssetFuncid hlen inputs).congr ?_
  rw [← hfound,Option.isSome_iff_exists]
  simp only [Bool.false_eq_true,false_implies,true_and,Option.mem_def,forall_exists_index]

theorem behaves_assetsValidate (tx : CTransaction) :
    Behaves (assetsValidate W e2 tx) (W.assetsValidate e2 tx) (AssetsReadable W e2 tx) := by
  unfold assetsValidate World.assetsValidate AssetsReadable
  cases hdec : decodeAssetTokenOpRet W.strayPk (lastScript tx) with
  | none => exact (Behaves.steady _).refuseWhen.congr (by simp)
  | some r =>
    have hlen := length_pos_of_decode hdec
    refine (behaves_assetInputs hlen).refuseWhen.refuseWhen.refuseWhen.refuseWhen.refuseWhen.refuseWhen
      |>.congr ?_
    have hvouts : ¬tx.vout=[] := List.ne_nil_of_length_pos hlen
    constructor
    · intro h q hq hentered
      obtain rfl := Option.some.inj hq
      apply h hvouts
      · rintro ⟨ho,hx,hnone⟩
        have hsome := hentered.asset ho hx
        rw [Option.isNone_iff_eq_none.mp hnone] at hsome
        cases hsome
      · rintro ⟨ho,hx,hid,hnone⟩
        have hsome := hentered.asset2 ho hx hid
        rw [Option.isNone_iff_eq_none.mp hnone] at hsome
        cases hsome
      · simp [hentered.vin0]
      · exact not_lt.mpr hentered.vouts
      · exact hentered.assetid
    · intro h _ hasset hasset2 hvin0 hlen2 hassetid
      refine h r rfl ⟨fun ho hx => ?_,fun ho hx hid => ?_,Bool.not_eq_true _ ▸ hvin0,
        not_lt.mp hlen2,hassetid⟩
      · by_contra hno
        exact hasset ⟨ho,hx,by simpa using hno⟩
      · by_contra hno
        exact hasset2 ⟨ho,hx,hid,by simpa using hno⟩

/-- The validators read only what is there exactly when their transactions are readable. -/
theorem readable_iff (W : World) (site : Site) (e2 : UInt8) (tx : CTransaction)
    (s : Option String) :
    ((assetsValidate W e2 tx s).isSome=true ∧ (tokensValidate W site tx s).isSome=true) ↔
      AssetsReadable W e2 tx ∧ TokensReadable W site tx :=
  and_congr ((behaves_assetsValidate tx).isSome_iff s)
    ((behaves_tokensValidate site tx).isSome_iff s)

/-- Gives all tokens away and names no key. -/
def keylessTx : CTransaction :=
  plainTx 5 [⟨⟨9,0⟩,[3,0xf2,7,1]⟩] [⟨100,[2,0xf2,7,0xcc]⟩,⟨0,transferScript 9⟩]

/-- Fills the bid with five tokens and has four outputs. -/
def shortFill : CTransaction :=
  plainTx 32 fillInputs [⟨950,[2,0xe3,0xe3,0xcc]⟩,⟨50,33::keyOf 8++[0xac]⟩,
    ⟨5,[2,0xf2,7,0xcc]⟩,⟨0,assetScript 'B' 95 (keyOf 7)⟩]

/-- Key 7 asks 50 coins for 10 tokens. -/
def askTx : CTransaction :=
  plainTx 21 [⟨⟨9,0⟩,[3,0xf2,7,1]⟩]
    [⟨10,[3,0xe3,0xf2,0xe3,0xcc]⟩,⟨0,assetScript 's' 50 (keyOf 7)⟩]

/-- Takes all tokens for 20 coins and says that 30 remain to be paid. -/
def soldOutFill : CTransaction :=
  plainTx 33 [⟨⟨2,0⟩,[]⟩,⟨⟨21,0⟩,[3,0xe3,0xe3,1]⟩] [⟨0,[]⟩,⟨10,[2,0xf2,8,0xcc]⟩,
    ⟨20,33::keyOf 7++[0xac]⟩,⟨0,assetScript 'S' 30 (keyOf 7)⟩]

def orderWorld : World := ofKeys (indexOf [creationTx,fiveTokensTx,bidTx,askTx])

theorem validators_crash :
    tokensValidate orderWorld (plainSite keylessTx) keylessTx none=none ∧
      assetsValidate orderWorld 0 shortFill none=none ∧
      assetsValidate orderWorld 0 soldOutFill none=none :=
  ⟨by decide +kernel,by decide +kernel,by decide +kernel⟩

end Assets

end Zdeex.Cc.Accesses
