import Mathlib.Tactic.Common
import Zdeex.Cc.TokenOpRet

namespace Zdeex.Cc

open Zdeex.Framework
open Zdeex.Coins
open Zdeex.Block
open Zdeex.Crosschain

namespace World

variable (W : World) (unmarshalTokenProof : List UInt8 → Option (String × CTransaction))

/-- The token contract of this node, for the migration check. -/
def tokens : Tokens where
  ismyvin := W.ismyvin EVAL_TOKENS
  decodeTokenOpRet script := (decodeTokenOpRet W.strayPk script).map fun r => (r.tokenid,r.oprets)
  decodeTokenCreateOpRet script := (decodeTokenCreateOpRet script).map fun create =>
    (create.origpubkey,textOf create.name,textOf create.description)
  isPayToCryptoCondition := isPayToCryptoCondition
  makeTokensCC1vout evalcode nValue := W.makeTokensCC1vout evalcode 0 nValue W.burnPk
  isTokenMarkerVout := W.isTokenMarkerVout
  unmarshalTokenProof := unmarshalTokenProof

/-- The code of the tokens that an import creates. -/
def nonfungibleEvalCode (r : TokenOpRet) : UInt8 :=
  (getOpretBlob r.oprets OPRETID_NONFUNGIBLEDATA).headD EVAL_TOKENS

/-- The token amounts of the burn and of the import agree. -/
def AmountsAgree (importTx burnTx : CTransaction) (r : TokenOpRet) : Prop :=
  sumCAmount ((burnTx.vout.filter fun v => isPayToCryptoCondition v.scriptPubKey &&
    v==W.makeTokensCC1vout (nonfungibleEvalCode r) 0 v.nValue W.burnPk).map CTxOut.nValue)=
  sumCAmount ((importTx.vout.filter fun v =>
    isPayToCryptoCondition v.scriptPubKey && !W.isTokenMarkerVout v).map CTxOut.nValue)

/-- The token of the burn is the one created in the raw proof, and the import is a
creation with the same parameters. -/
def KeepsIdentity (importTx burnTx : CTransaction) (rawproof : List UInt8) : Prop :=
  ∃sourceSymbol tokenbaseTx burned created imported,
    unmarshalTokenProof rawproof=some (sourceSymbol,tokenbaseTx) ∧
    decodeTokenOpRet W.strayPk (lastScript burnTx)=some burned ∧
    burned.tokenid=tokenbaseTx.hash ∧
    decodeTokenCreateOpRet (lastScript tokenbaseTx)=some created ∧
    decodeTokenCreateOpRet (lastScript importTx)=some imported ∧
    imported.origpubkey=created.origpubkey ∧ imported.name=created.name ∧
    imported.description=created.description

/-- The op_return of a token import names no token, and everything that is checked
of amounts and proof is right. -/
def Unguarded (C : NotarizedChain) (importTx burnTx : CTransaction) (proof : ImportProof) : Prop :=
  ∃r,decodeTokenOpRet W.strayPk (lastScript importTx)=some r ∧ r.tokenid=0 ∧
    (burnTx.vin.any fun vin => W.ismyvin EVAL_TOKENS vin.scriptSig)=true ∧
    W.AmountsAgree importTx burnTx r ∧ checkProof C burnTx proof=.ok ()

variable {W unmarshalTokenProof}

/-- The outputs of a token import are accepted for the id in its op_return. -/
theorem checkTokenOutputs_ok {importTx burnTx : CTransaction} {tokenid : Uint256} :
    checkTokenOutputs (W.tokens unmarshalTokenProof) importTx burnTx=.ok tokenid ↔
      ∃r,decodeTokenOpRet W.strayPk (lastScript importTx)=some r ∧ r.tokenid=tokenid ∧
        (burnTx.vin.any fun vin => W.ismyvin EVAL_TOKENS vin.scriptSig)=true ∧
        W.AmountsAgree importTx burnTx r := by
  unfold checkTokenOutputs
  cases hdec : decodeTokenOpRet W.strayPk (lastScript importTx) with
  | none => simp [tokens,hdec,throw,throwThe,MonadExceptOf.throw]
  | some r =>
    have hmap : (W.tokens unmarshalTokenProof).decodeTokenOpRet (lastScript importTx)=
        some (r.tokenid,r.oprets) := by simp [tokens,hdec]
    rw [hmap]
    dsimp only
    split
    next hvin =>
      have hnone : (burnTx.vin.any fun vin => W.ismyvin EVAL_TOKENS vin.scriptSig)=false :=
        (Bool.not_eq_true' _).mp hvin
      simp [hnone,Bind.bind,Except.bind,throw,throwThe,MonadExceptOf.throw]
    next hvin =>
      have hsome : (burnTx.vin.any fun vin => W.ismyvin EVAL_TOKENS vin.scriptSig)=true := by
        rwa [Bool.not_eq_true',Bool.not_eq_false] at hvin
      split
      next hdiffer =>
        have hne : ¬W.AmountsAgree importTx burnTx r := hdiffer
        simp [hne,Bind.bind,Except.bind,throw,throwThe,MonadExceptOf.throw]
      next hagree =>
        have heq : W.AmountsAgree importTx burnTx r := not_not.mp hagree
        simp [hsome,heq,pure,Except.pure]

theorem checkTokenOutputs_error {importTx burnTx : CTransaction} {e : String}
    (h : checkTokenOutputs (W.tokens unmarshalTokenProof) importTx burnTx=.error e) :
    e≠"import-tx-token-params-incorrect" := by
  unfold checkTokenOutputs at h
  split at h
  · obtain rfl := Except.error.inj h
    decide
  · dsimp only at h
    split_ifs at h
    · obtain rfl := Except.error.inj h
      decide
    · obtain rfl := Except.error.inj h
      decide
    · obtain rfl := Except.error.inj h
      decide
    · cases h

theorem checkProof_error {C : NotarizedChain} {burnTx : CTransaction} {proof : ImportProof}
    {e : String} (h : checkProof C burnTx proof=.error e) :
    e≠"import-tx-token-params-incorrect" := by
  unfold checkProof at h
  split at h
  · split_ifs at h
    · cases h
    · obtain rfl := Except.error.inj h
      decide
  · split_ifs at h
    · cases h
    · obtain rfl := Except.error.inj h
      decide
  · obtain rfl := Except.error.inj h
    decide

/-- An import that names a token is refused before its parameters are compared. -/
theorem checkTokenCreation_transfer {importTx burnTx : CTransaction} {rawproof : List UInt8}
    (h : decodeTokenCreateOpRet (lastScript importTx)=none) :
    ∃e,e≠"import-tx-token-params-incorrect" ∧
      checkTokenCreation (W.tokens unmarshalTokenProof) importTx burnTx rawproof=.error e := by
  have himport : (W.tokens unmarshalTokenProof).decodeTokenCreateOpRet (lastScript importTx)=
      none := by simp [tokens,h]
  unfold checkTokenCreation
  rw [himport]
  cases (W.tokens unmarshalTokenProof).unmarshalTokenProof rawproof with
  | none => exact ⟨_,by decide,rfl⟩
  | some p =>
    dsimp only
    have hlater : ∀sourceTokenId,∃e,e≠"import-tx-token-params-incorrect" ∧
        (do
          if sourceTokenId≠p.2.hash then throw "incorrect-token-creation-tx-passed"
          if ((W.tokens unmarshalTokenProof).decodeTokenCreateOpRet (lastScript p.2)).isNone then
            throw "cannot-decode-token-creation-tx"
          throw "cannot-decode-token-import-tx" : Except String Unit)=.error e := by
      intro sourceTokenId
      split_ifs <;> exact ⟨_,by decide,rfl⟩
    split
    · exact hlater 0
    · cases (W.tokens unmarshalTokenProof).decodeTokenOpRet (lastScript burnTx) with
      | none => exact ⟨_,by decide,rfl⟩
      | some r => exact hlater r.1

/-- What the checks of a token import come down to: the op_return names no token
and the outputs agree, else there is an error that is not about the parameters. -/
theorem checkTransactions_token (W : World)
    (unmarshalTokenProof : List UInt8 → Option (String × CTransaction)) {importTx : CTransaction}
    (burnTx : CTransaction) (rawproof : List UInt8)
    (htoken : (opretData (lastScript importTx)).head?=some EVAL_TOKENS) :
    (checkTransactions (W.tokens unmarshalTokenProof) importTx burnTx rawproof=.ok () ∧
      ∃r,decodeTokenOpRet W.strayPk (lastScript importTx)=some r ∧ r.tokenid=0 ∧
        (burnTx.vin.any fun vin => W.ismyvin EVAL_TOKENS vin.scriptSig)=true ∧
        W.AmountsAgree importTx burnTx r) ∨
    ((¬∃r,decodeTokenOpRet W.strayPk (lastScript importTx)=some r ∧ r.tokenid=0 ∧
        (burnTx.vin.any fun vin => W.ismyvin EVAL_TOKENS vin.scriptSig)=true ∧
        W.AmountsAgree importTx burnTx r) ∧
      ∃e,e≠"import-tx-token-params-incorrect" ∧
        checkTransactions (W.tokens unmarshalTokenProof) importTx burnTx rawproof=.error e) := by
  obtain ⟨data,hdata⟩ : ∃data,Script.getOpReturnData (lastScript importTx)=
      some (EVAL_TOKENS::data) := by
    unfold opretData at htoken
    cases hopret : Script.getOpReturnData (lastScript importTx) with
    | none => simp [hopret] at htoken
    | some v =>
      rw [hopret,Option.getD_some] at htoken
      obtain ⟨data,rfl⟩ := List.head?_eq_some_iff.mp htoken
      exact ⟨data,rfl⟩
  unfold checkTransactions
  rw [hdata]
  dsimp only
  rw [if_pos rfl]
  cases houtputs : checkTokenOutputs (W.tokens unmarshalTokenProof) importTx burnTx with
  | error e =>
    refine .inr ⟨?_,e,checkTokenOutputs_error houtputs,rfl⟩
    intro hpass
    rw [checkTokenOutputs_ok.mpr hpass] at houtputs
    cases houtputs
  | ok tokenid =>
    obtain ⟨r,hdec,hid,hvin,hamounts⟩ := checkTokenOutputs_ok.mp houtputs
    by_cases hnull : tokenid.isNull=true
    · rw [Uint256.isNull_iff] at hnull
      refine .inl ⟨?_,r,hdec,hid.trans hnull,hvin,hamounts⟩
      subst hnull
      rfl
    · have hne : tokenid≠0 := by rwa [Uint256.isNull_iff] at hnull
      have htransfer : decodeTokenCreateOpRet (lastScript importTx)=none := by
        obtain ⟨-,hzero,-⟩ | ⟨-,ht⟩ := decodeTokenOpRet_cases hdec
        · exact absurd (hid.symm.trans hzero) hne
        · exact decodeTokenCreateOpRet_transfer ht
      obtain ⟨e,he,herror⟩ : ∃e,e≠"import-tx-token-params-incorrect" ∧
          checkTokenCreation (W.tokens unmarshalTokenProof) importTx burnTx rawproof=.error e :=
        checkTokenCreation_transfer htransfer
      refine .inr ⟨?_,e,he,?_⟩
      · rintro ⟨r',hdec',hid',-⟩
        rw [hdec] at hdec'
        obtain rfl := Option.some.inj hdec'
        exact hne (hid.symm.trans hid')
      · change (if tokenid.isNull=true then pure () else _)=Except.error e
        rw [if_neg hnull,herror]

/-- The guard around the comparison of the parameters is never passed by an import
that creates its token: whatever else is right is enough. -/
theorem token_import_identity_iff (W : World)
    (unmarshalTokenProof : List UInt8 → Option (String × CTransaction)) (C : NotarizedChain)
    (importTx burnTx : CTransaction) (proof : ImportProof) (rawproof : List UInt8)
    (htoken : (opretData (lastScript importTx)).head?=some EVAL_TOKENS) :
    ((checkMigration (W.tokens unmarshalTokenProof) C importTx burnTx proof rawproof=.ok () →
        W.KeepsIdentity unmarshalTokenProof importTx burnTx rawproof) ∧
      (W.KeepsIdentity unmarshalTokenProof importTx burnTx rawproof →
        checkMigration (W.tokens unmarshalTokenProof) C importTx burnTx proof rawproof≠
          .error "import-tx-token-params-incorrect")) ↔
    (W.Unguarded C importTx burnTx proof →
      W.KeepsIdentity unmarshalTokenProof importTx burnTx rawproof) := by
  have hcases := checkTransactions_token W unmarshalTokenProof burnTx rawproof htoken
  have hmigration : checkMigration (W.tokens unmarshalTokenProof) C importTx burnTx proof rawproof=
      checkTransactions (W.tokens unmarshalTokenProof) importTx burnTx rawproof>>=
        fun _ => checkProof C burnTx proof := rfl
  have haccept : checkMigration (W.tokens unmarshalTokenProof) C importTx burnTx proof rawproof=
      .ok () ↔ W.Unguarded C importTx burnTx proof := by
    rw [hmigration]
    obtain ⟨hok,r,hdec,hid,hvin,hamounts⟩ | ⟨hnone,e,-,herror⟩ := hcases
    · rw [hok]
      constructor
      · intro hproof
        exact ⟨r,hdec,hid,hvin,hamounts,hproof⟩
      · rintro ⟨-,-,-,-,-,hproof⟩
        exact hproof
    · rw [herror]
      constructor
      · intro hfalse
        cases hfalse
      · rintro ⟨r,hdec,hid,hvin,hamounts,-⟩
        exact absurd ⟨r,hdec,hid,hvin,hamounts⟩ hnone
  have hparams : checkMigration (W.tokens unmarshalTokenProof) C importTx burnTx proof rawproof≠
      .error "import-tx-token-params-incorrect" := by
    rw [hmigration]
    intro hfail
    obtain ⟨hok,-⟩ | ⟨-,e,he,herror⟩ := hcases
    · rw [hok] at hfail
      exact checkProof_error hfail rfl
    · rw [herror] at hfail
      exact he (Except.error.inj hfail)
  rw [haccept]
  constructor
  · intro hclaim
    exact hclaim.1
  · intro hid
    exact ⟨hid,fun _ => hparams⟩

/-- The token 9 is burned by transaction 5, whose MoMoM is in the chain. -/
def tokenBurn : CTransaction :=
  plainTx 5 [⟨⟨8,0⟩,[3,0xf2,7,1]⟩] [⟨100,[2,0xf2,0xde,0xcc]⟩,⟨0,transferScript 9⟩]

def burnedChain : NotarizedChain :=
  {nullMoMoMChain with
    getBlockNotarizations := fun blockHash => if blockHash=13 then some [(2,⟨5⟩)] else none}

/-- The import creates a token with another name than token 9 has. -/
def renamedImport : CTransaction :=
  plainTx 6 [⟨⟨5,CTransaction.importMarker⟩,[1,0xe2]⟩] [⟨100,[2,0xf2,7,0xcc]⟩,⟨0,createScript 0x62⟩]

def tokenProof (_ : List UInt8) : Option (String × CTransaction) :=
  some ("SRC",plainTx 9 [] [⟨100,[2,0xf2,7,0xcc]⟩,⟨0,createScript 0x61⟩])

theorem renamed_token_imported :
    checkMigration ((ofKeys fun _ => none).tokens tokenProof) burnedChain renamedImport tokenBurn
      (.merkleBranch (1,⟨0,[]⟩)) []=.ok () ∧
    ¬(ofKeys fun _ => none).KeepsIdentity tokenProof renamedImport tokenBurn [] := by
  refine ⟨by decide +kernel,?_⟩
  rintro ⟨sym,base,burned,created,imported,hbase,-,-,hcreated,himported,-,hname,-⟩
  obtain ⟨-,rfl⟩ := Prod.mk.inj (Option.some.inj hbase)
  have hsource : decodeTokenCreateOpRet (createScript 0x61)=some ⟨[],[0x61],[],[]⟩ := by
    decide +kernel
  have hrenamed : decodeTokenCreateOpRet (createScript 0x62)=some ⟨[],[0x62],[],[]⟩ := by
    decide +kernel
  obtain rfl := Option.some.inj (hsource.symm.trans hcreated)
  obtain rfl := Option.some.inj (hrenamed.symm.trans himported)
  exact absurd hname (by decide)

/-- With the name of token 9 the import keeps its identity. -/
def faithfulImport : CTransaction :=
  plainTx 6 [⟨⟨5,CTransaction.importMarker⟩,[1,0xe2]⟩] [⟨100,[2,0xf2,7,0xcc]⟩,⟨0,createScript 0x61⟩]

theorem faithful_import_keeps_identity :
    checkMigration ((ofKeys fun _ => none).tokens tokenProof) burnedChain faithfulImport tokenBurn
      (.merkleBranch (1,⟨0,[]⟩)) []=.ok () ∧
    (ofKeys fun _ => none).KeepsIdentity tokenProof faithfulImport tokenBurn [] := by
  have haccept : checkMigration ((ofKeys fun _ => none).tokens tokenProof) burnedChain
      faithfulImport tokenBurn (.merkleBranch (1,⟨0,[]⟩)) []=.ok () := by decide +kernel
  refine ⟨haccept,((token_import_identity_iff (ofKeys fun _ => none) tokenProof burnedChain
    faithfulImport tokenBurn (.merkleBranch (1,⟨0,[]⟩)) [] (by decide +kernel)).mpr ?_).1 haccept⟩
  intro _
  exact ⟨"SRC",plainTx 9 [] [⟨100,[2,0xf2,7,0xcc]⟩,⟨0,createScript 0x61⟩],⟨chr 't',9,[],[]⟩,
    ⟨[],[0x61],[],[]⟩,⟨[],[0x61],[],[]⟩,rfl,by decide +kernel,by decide +kernel,
    by decide +kernel,by decide +kernel,rfl,rfl,rfl⟩

end World

end Zdeex.Cc
