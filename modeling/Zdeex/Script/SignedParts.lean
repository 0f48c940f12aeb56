import Zdeex.Script.SignatureHash

namespace Zdeex.Sighash

open Zdeex.Framework
open Zdeex.Wire

section Views

/-- A spend as far as it is signed. -/
abbrev Unsigned := Uint256 × Uint256 × Uint256 × Uint256 × Bytes 192

/-- What a signature of an overwintered transaction speaks of; `none` is a part it leaves open. -/
structure OverwinterFields where
  header : BitVec 32
  nVersionGroupId : BitVec 32
  prevouts : Option (List COutPoint)
  sequences : Option (List (BitVec 32))
  outputs : Option (List CTxOut)
  joinSplits : Option (List JSDescription × Uint256)
  shieldedSpends : Option (List Unsigned)
  shieldedOutputs : Option (List OutputDescription)
  nLockTime : BitVec 32
  nExpiryHeight : BitVec 32
  valueBalance : BitVec 64
  nHashType : BitVec 32
  input : Option (COutPoint × List Byte × BitVec 64 × BitVec 32)
  consensusBranchId : BitVec 32
deriving DecidableEq

inductive Signed
  | sprout (fields : SproutFields)
  | overwinter (fields : OverwinterFields)
deriving DecidableEq

namespace Args

variable (a : Args)

def outputs : Option (List CTxOut) :=
  if !a.fHashSingle && !a.fHashNone then some a.txTo.vout
  else if a.fHashSingle then a.txTo.vout[a.nIn]?.map fun txout => [txout]
  else none

def input : Option (COutPoint × List Byte × BitVec 64 × BitVec 32) :=
  if a.nIn≠NOT_AN_INPUT then
    a.txTo.vin[a.nIn]?.map fun txin => (txin.prevout,a.scriptCode,a.amount,txin.nSequence)
  else none

def overwinterFields (sapling : Bool) : OverwinterFields where
  header := getHeader a.txTo.fOverwintered a.txTo.nVersion
  nVersionGroupId := a.txTo.nVersionGroupId
  prevouts := if !a.fAnyoneCanPay then some (a.txTo.vin.map CTxIn.prevout) else none
  sequences :=
    if !a.fAnyoneCanPay && !a.fHashSingle && !a.fHashNone then
      some (a.txTo.vin.map CTxIn.nSequence)
    else none
  outputs := a.outputs
  joinSplits :=
    if !a.txTo.vjoinsplit.isEmpty then some (a.txTo.vjoinsplit,a.txTo.joinSplitPubKey) else none
  shieldedSpends :=
    if sapling && !a.txTo.vShieldedSpend.isEmpty then
      some (a.txTo.vShieldedSpend.map fun s => (s.cv,s.anchor,s.nullifier,s.rk,s.zkproof))
    else none
  shieldedOutputs :=
    if sapling && !a.txTo.vShieldedOutput.isEmpty then some a.txTo.vShieldedOutput else none
  nLockTime := a.txTo.nLockTime
  nExpiryHeight := a.txTo.nExpiryHeight
  valueBalance := if sapling then a.txTo.valueBalance else 0
  nHashType := a.nHashType
  input := a.input
  consensusBranchId := a.consensusBranchId

/-- What the signature hash is to commit to. -/
def signed : Signed :=
  match signatureHashVersion a.txTo with
  | .SPROUT => .sprout (sproutFields a)
  | .OVERWINTER => .overwinter (a.overwinterFields false)
  | .SAPLING => .overwinter (a.overwinterFields true)

/-- What the wire format promises of the sizes. -/
structure Sized : Prop where
  txTo : a.txTo.Sized
  scriptCode : a.scriptCode.length≤MAX_SIZE

end Args

end Views

section Parts

variable {α : Type} {hash : Hashed → Uint256} {p : List Byte} {w : α → Option (List Byte)}
  {o o' : Option α} {qs qs' : List Hashed} {d d' : Uint256}

/-- The hash of a part stands for it, and a null hash for a part that is left open. -/
def Part (hash : Hashed → Uint256) (p : List Byte) (w : α → Option (List Byte)) (o : Option α)
    (qs : List Hashed) (d : Uint256) : Prop :=
  match o with
  | none => d=0
  | some a => ∃e,w a=some e ∧ .blake2b p e∈qs ∧ d=hash (.blake2b p e)

theorem blake2b_ran {written : Option (List Byte)} :
    (blake2b hash p written).Ran qs d ↔
      ∃e,written=some e ∧ qs=[.blake2b p e] ∧ d=hash (.blake2b p e) := by
  rw [blake2b,Traced.Ran.lift_bind_iff]
  refine exists_congr fun e => ?_
  rw [expect_ok,Traced.Ran.ask_iff,eq_comm (a:=d)]

theorem Part.some_of_ran {a : α} (h : (blake2b hash p (w a)).Ran qs d) :
    Part hash p w (some a) qs d := by
  obtain ⟨e,he,rfl,rfl⟩ := blake2b_ran.mp h
  exact ⟨e,he,List.mem_singleton_self _,rfl⟩

theorem Part.of_ran {c : Bool} {a : α}
    (h : (if c then blake2b hash p (w a) else pure 0 : Hashing Uint256).Ran qs d) :
    Part hash p w (if c then some a else none) qs d := by
  cases c with
  | true => exact .some_of_ran h
  | false => exact (Traced.Ran.pure_iff.mp h).2.symm

theorem Part.mono (h : Part hash p w o qs d) (hsub : qs ⊆ qs') : Part hash p w o qs' d := by
  cases o with
  | none => exact h
  | some a =>
    obtain ⟨e,he,hmem,hd⟩ := h
    exact ⟨e,he,hsub hmem,hd⟩

/-- No two of what was hashed collide, and nothing hashes to null. -/
structure Distinct (hash : Hashed → Uint256) (qs : List Hashed) : Prop where
  inj : ∀q∈qs,∀q'∈qs,hash q=hash q' → q=q'
  ne_zero : ∀q∈qs,hash q≠0

/-- Parts that are written differently have different hashes. -/
theorem Part.eq_iff (h : Part hash p w o qs d) (h' : Part hash p w o' qs d')
    (hfree : Distinct hash qs)
    (hw : ∀a∈o,∀a'∈o',∀e,w a=some e → w a'=some e → a=a') : d=d' ↔ o=o' := by
  cases o with
  | none =>
    cases o' with
    | none => exact ⟨fun _ => rfl,fun _ => h.trans h'.symm⟩
    | some a' =>
      obtain ⟨e',-,hmem',rfl⟩ := h'
      have hne := hfree.ne_zero _ hmem'
      exact ⟨fun hd => absurd (hd.symm.trans h) hne,fun ho => by cases ho⟩
  | some a =>
    obtain ⟨e,he,hmem,rfl⟩ := h
    cases o' with
    | none => exact ⟨fun hd => absurd (hd.trans h') (hfree.ne_zero _ hmem),fun ho => by cases ho⟩
    | some a' =>
      obtain ⟨e',he',hmem',rfl⟩ := h'
      constructor
      · intro hd
        obtain ⟨-,rfl⟩ := Hashed.blake2b.inj (hfree.inj _ hmem _ hmem' hd)
        exact congrArg some (hw a rfl a' rfl e he he')
      · intro ho
        obtain rfl := Option.some.inj ho
        rw [he] at he'
        rw [Option.some.inj he']

end Parts

section Writers

variable {e : List Byte}

theorem outPoint_solid : outPoint.Solid :=
  ((Codec.Solid.word (by decide) (by decide)).pair _).shaped _ _ _ _

theorem u32_solid : u32.Solid := .word (by decide) (by decide)

theorem txOut_solid : txOut.Solid :=
  ((Codec.Solid.word (by decide) (by decide)).pair _).shaped _ _ _ _

theorem jsDescription_solid (header : BitVec 32) : (jsDescription header).Solid :=
  ((Codec.Solid.word (by decide) (by decide)).pair _).shaped _ _ _ _

theorem unsignedSpend_solid : unsignedSpend.Solid :=
  (Codec.Solid.word (by decide) (by decide)).pair _

theorem outputDescription_solid : outputDescription.Solid :=
  ((Codec.Solid.word (by decide) (by decide)).pair _).shaped _ _ _ _

/-- What is hashed of a list determines the list. -/
theorem writeItems_unique {α : Type} {A : Codec α} (hA : A.Solid) {as as' : List α}
    (ha : ∀a∈as,A.Fits a) (ha' : ∀a∈as',A.Fits a) (he : A.writeItems as=some e)
    (he' : A.writeItems as'=some e) : as=as' :=
  (Codec.writeItems_inj hA ha ha' he he' (rfl : ([] : List Byte).length=0) rfl).1

theorem writeJoinSplits_unique {header : BitVec 32} {p p' : List JSDescription × Uint256}
    (he : writeJoinSplits header p=some e) (he' : writeJoinSplits header p'=some e) : p=p' := by
  have hall (l : List JSDescription) : ∀j∈l,(jsDescription header).Fits j := by simp
  obtain ⟨js,hjs,he⟩ := Option.bind_eq_some_iff.mp he
  obtain ⟨key,hkey,he⟩ := Option.bind_eq_some_iff.mp he
  obtain ⟨js',hjs',he'⟩ := Option.bind_eq_some_iff.mp he'
  obtain ⟨key',hkey',he'⟩ := Option.bind_eq_some_iff.mp he'
  obtain rfl := Option.some.inj he
  obtain rfl := Option.some.inj hkey
  obtain rfl := Option.some.inj hkey'
  have hlen : (toBytes p.2).length=(toBytes p'.2).length := by
    rw [length_toBytes,length_toBytes]
  obtain ⟨hitems,hbytes⟩ := Codec.writeItems_inj (jsDescription_solid header) (hall _) (hall _)
    hjs hjs' hlen (Option.some.inj he').symm
  have hread : u256.write p.2=some (toBytes p'.2) := congrArg some hbytes
  exact Prod.ext hitems (Codec.write_inj' trivial trivial hread rfl)

end Writers

section Runs

variable {hash : Hashed → Uint256} {a : Args} {sapling : Bool} {qs qs' : List Hashed}
  {d : PrecomputedTransactionData} {h h' : Uint256}

/-- Each part and its hash. -/
structure OverwinterFields.Parts (hash : Hashed → Uint256) (v : OverwinterFields)
    (qs : List Hashed) (d : PrecomputedTransactionData) : Prop where
  prevouts : Part hash ZCASH_PREVOUTS_HASH_PERSONALIZATION outPoint.writeItems v.prevouts qs
    d.hashPrevouts
  sequences : Part hash ZCASH_SEQUENCE_HASH_PERSONALIZATION u32.writeItems v.sequences qs
    d.hashSequence
  outputs : Part hash ZCASH_OUTPUTS_HASH_PERSONALIZATION txOut.writeItems v.outputs qs d.hashOutputs
  joinSplits : Part hash ZCASH_JOINSPLITS_HASH_PERSONALIZATION (writeJoinSplits v.header)
    v.joinSplits qs d.hashJoinSplits
  shieldedSpends : Part hash ZCASH_SHIELDED_SPENDS_HASH_PERSONALIZATION unsignedSpend.writeItems
    v.shieldedSpends qs d.hashShieldedSpends
  shieldedOutputs : Part hash ZCASH_SHIELDED_OUTPUTS_HASH_PERSONALIZATION
    outputDescription.writeItems v.shieldedOutputs qs d.hashShieldedOutputs

theorem OverwinterFields.Parts.mono {v : OverwinterFields} (h : v.Parts hash qs d)
    (hsub : qs ⊆ qs') : v.Parts hash qs' d :=
  ⟨h.prevouts.mono hsub,h.sequences.mono hsub,h.outputs.mono hsub,h.joinSplits.mono hsub,
    h.shieldedSpends.mono hsub,h.shieldedOutputs.mono hsub⟩

theorem outputs_part
    (hran : (if !a.fHashSingle && !a.fHashNone then getOutputsHash hash a.txTo.vout
      else if a.fHashSingle then
        match a.txTo.vout[a.nIn]? with
        | some txout => getOutputsHash hash [txout]
        | none => pure 0
      else pure 0 : Hashing Uint256).Ran qs h) :
    Part hash ZCASH_OUTPUTS_HASH_PERSONALIZATION txOut.writeItems a.outputs qs h := by
  rw [Args.outputs]
  split at hran
  · rename_i hall
    rw [if_pos hall]
    exact .some_of_ran hran
  · rename_i hall
    rw [if_neg hall]
    split at hran
    · rename_i hsingle
      rw [if_pos hsingle]
      cases hout : a.txTo.vout[a.nIn]? with
      | none =>
        rw [hout] at hran
        exact (Traced.Ran.pure_iff.mp hran).2.symm
      | some txout =>
        rw [hout] at hran
        exact .some_of_ran hran
    · rename_i hsingle
      rw [if_neg hsingle]
      exact (Traced.Ran.pure_iff.mp hran).2.symm

theorem partHashes_ran (hran : (partHashes hash none a).Ran qs d) :
    (a.overwinterFields true).Parts hash qs d := by
  simp only [partHashes,cached,Traced.Ran.bind_iff] at hran
  obtain ⟨qs₁,_,prevouts,h₁,⟨qs₂,_,sequence,h₂,⟨qs₃,_,outputs,h₃,⟨qs₄,_,joinSplits,h₄,
    ⟨qs₅,_,spends,h₅,⟨qs₆,_,shielded,h₆,hpure,rfl⟩,rfl⟩,rfl⟩,rfl⟩,rfl⟩,rfl⟩ := hran
  obtain ⟨rfl,rfl⟩ := Traced.Ran.pure_iff.mp hpure
  refine ⟨(Part.of_ran h₁).mono ?_,(Part.of_ran h₂).mono ?_,(outputs_part h₃).mono ?_,
    (Part.of_ran h₄).mono ?_,(Part.of_ran h₅).mono ?_,(Part.of_ran h₆).mono ?_⟩
  all_goals
    intro q hq
    simp [hq]

/-- The parts the format before Sapling does not have are not looked at. -/
def PrecomputedTransactionData.upTo (d : PrecomputedTransactionData) (sapling : Bool) :
    PrecomputedTransactionData :=
  if sapling then d else {d with hashShieldedSpends := 0,hashShieldedOutputs := 0}

theorem partHashes_upTo (hran : (partHashes hash none a).Ran qs d) :
    (a.overwinterFields sapling).Parts hash qs (d.upTo sapling) := by
  have hparts := partHashes_ran hran
  cases sapling with
  | true => exact hparts
  | false => exact ⟨hparts.prevouts,hparts.sequences,hparts.outputs,hparts.joinSplits,rfl,rfl⟩

def writeInput (i : Option (COutPoint × List Byte × BitVec 64 × BitVec 32)) :
    Option (List Byte) :=
  match i with
  | none => some []
  | some i => signedInput.write i

/-- The fields that stand in the last message. -/
def OverwinterFields.written (v : OverwinterFields) (d : PrecomputedTransactionData) :
    BitVec 32 × BitVec 32 × (Uint256 × Uint256 × Uint256 × Uint256) × (Uint256 × Uint256) ×
      BitVec 32 × BitVec 32 × BitVec 64 × BitVec 32 :=
  (v.header,v.nVersionGroupId,(d.hashPrevouts,d.hashSequence,d.hashOutputs,d.hashJoinSplits),
    (d.hashShieldedSpends,d.hashShieldedOutputs),v.nLockTime,v.nExpiryHeight,v.valueBalance,
    v.nHashType)

/-- How the hash comes from what is signed. -/
def OverwinterFields.Hashes (hash : Hashed → Uint256) (sapling : Bool) (v : OverwinterFields)
    (qs : List Hashed) (h : Uint256) : Prop :=
  ∃d e e',v.Parts hash qs d ∧ (preimage sapling).write (v.written d)=some e ∧
    writeInput v.input=some e' ∧
    .blake2b (sigHashPersonalization v.consensusBranchId) (e++e')∈qs ∧
    h=hash (.blake2b (sigHashPersonalization v.consensusBranchId) (e++e'))

theorem inputBytes_ran
    (hran : (if a.nIn≠NOT_AN_INPUT then (liftM (inputBytes a) : Hashing (List Byte))
      else pure []).Ran qs e') : qs=[] ∧ writeInput a.input=some e' := by
  rw [Args.input]
  split at hran
  · rename_i hin
    obtain ⟨rfl,hbytes⟩ := Traced.Ran.lift_iff.mp hran
    simp only [inputBytes,bind_ok,expect_ok] at hbytes
    obtain ⟨txin,hfound,hwrite⟩ := hbytes
    rw [if_pos hin,hfound]
    exact ⟨rfl,hwrite⟩
  · rename_i hin
    obtain ⟨rfl,rfl⟩ := Traced.Ran.pure_iff.mp hran
    rw [if_neg hin]
    exact ⟨rfl,rfl⟩

theorem overwinterHash_ran (hran : (overwinterHash hash none sapling a).Ran qs h) :
    (a.overwinterFields sapling).Hashes hash sapling qs h := by
  simp only [overwinterHash,Traced.Ran.bind_iff] at hran
  obtain ⟨qs₁,_,d,hparts,⟨qs₂,_,e,hwrite,⟨qs₃,_,e',hinput,hlast,rfl⟩,rfl⟩,rfl⟩ := hran
  obtain ⟨rfl,hbytes⟩ := Traced.Ran.lift_iff.mp hwrite
  obtain ⟨rfl,hsigned⟩ := inputBytes_ran hinput
  obtain ⟨message,hmessage,rfl,rfl⟩ := blake2b_ran.mp hlast
  obtain rfl := Option.some.inj hmessage
  refine ⟨d.upTo sapling,e,e',(partHashes_upTo hparts).mono ?_,?_,hsigned,
    List.mem_append_right _ (List.mem_singleton_self _),rfl⟩
  · exact List.subset_append_left _ _
  · rw [← expect_ok.mp hbytes]
    cases sapling <;> rfl

end Runs

section Commitment

variable {hash : Hashed → Uint256} {sapling sapling' : Bool} {v v' : OverwinterFields}
  {qs : List Hashed} {d d' : PrecomputedTransactionData} {h h' : Uint256}

/-- What holds of the fields of a transaction that was read from the wire. -/
structure OverwinterFields.WellFormed (sapling : Bool) (v : OverwinterFields) : Prop where
  version : sapling=decide (v.nVersionGroupId=SAPLING_VERSION_GROUP_ID)
  outputs : ∀vout∈v.outputs,∀o∈vout,o.scriptPubKey.length≤MAX_SIZE
  input : ∀i∈v.input,i.2.1.length≤MAX_SIZE
  before : sapling=false →
    v.valueBalance=0 ∧ v.shieldedSpends=none ∧ v.shieldedOutputs=none

theorem toBytes_inj {b b' : BitVec 32} (h : toBytes b=toBytes b') : b=b' :=
  Codec.write_inj' (A:=u32) trivial trivial rfl (congrArg some h.symm)

theorem write_pair {α β : Type} {A : Codec α} {B : Codec β} {q : α × β} {e : List Byte}
    (h : (A.pair B).write q=some e) :
    ∃e₁ e₂,A.write q.1=some e₁ ∧ B.write q.2=some e₂ ∧ e=e₁++e₂ := by
  obtain ⟨e₁,he₁,h⟩ := Option.bind_eq_some_iff.mp h
  obtain ⟨e₂,he₂,h⟩ := Option.bind_eq_some_iff.mp h
  exact ⟨e₁,e₂,he₁,he₂,(Option.some.inj h).symm⟩

/-- The version group stands where it does in either format. -/
theorem preimage_group {e e' r r' : List Byte} (he : (preimage sapling).write (v.written d)=some e)
    (he' : (preimage sapling').write (v'.written d')=some e') (h : e++r=e'++r') :
    v.nVersionGroupId=v'.nVersionGroupId := by
  obtain ⟨e₁,e₂,he₁,he₂,rfl⟩ := write_pair he
  obtain ⟨e₃,e₄,he₃,-,rfl⟩ := write_pair he₂
  obtain ⟨e₁',e₂',he₁',he₂',rfl⟩ := write_pair he'
  obtain ⟨e₃',e₄',he₃',-,rfl⟩ := write_pair he₂'
  simp only [List.append_assoc] at h
  obtain ⟨-,htail⟩ := Codec.write_inj trivial trivial he₁ he₁' h
  exact (Codec.write_inj trivial trivial he₃ he₃' htail).1

theorem signedInput_fits {i : COutPoint × List Byte × BitVec 64 × BitVec 32}
    (hi : i.2.1.length≤MAX_SIZE) : signedInput.Fits i := by
  simpa [signedInput,outPoint,script] using hi

theorem writeInput_unique {i i' : Option (COutPoint × List Byte × BitVec 64 × BitVec 32)}
    {e : List Byte} (hi : ∀j∈i,j.2.1.length≤MAX_SIZE) (hi' : ∀j∈i',j.2.1.length≤MAX_SIZE)
    (he : writeInput i=some e) (he' : writeInput i'=some e) : i=i' := by
  have hsolid : signedInput.Solid := outPoint_solid.pair _
  cases i with
  | none =>
    obtain rfl := Option.some.inj he
    cases i' with
    | none => rfl
    | some i' => exact absurd rfl (hsolid he')
  | some i =>
    cases i' with
    | none =>
      obtain rfl := Option.some.inj he'
      exact absurd rfl (hsolid he)
    | some i' =>
      have hfits := signedInput_fits (hi i rfl)
      have hfits' := signedInput_fits (hi' i' rfl)
      exact congrArg some (Codec.write_inj' hfits hfits' he he')

theorem preimage_fits (hv : v.WellFormed sapling) (hparts : v.Parts hash qs d) :
    (preimage sapling).Fits (v.written d) := by
  simp only [preimage,OverwinterFields.written,Codec.fits_pair,Codec.fits_when,fits_u32,fits_u64,
    fits_u256,true_and,and_true,implies_true]
  refine ⟨fun hbefore => ?_,fun hbefore => (hv.before hbefore).1⟩
  obtain ⟨-,hspends,houtputs⟩ := hv.before hbefore
  have h₁ := hparts.shieldedSpends
  have h₂ := hparts.shieldedOutputs
  rw [hspends] at h₁
  rw [houtputs] at h₂
  exact Prod.ext h₁ h₂

/-- The hashes of the parts are the same where the parts are. -/
theorem parts_eq_iff (hfree : Distinct hash qs) (hv : v.WellFormed sapling)
    (hv' : v'.WellFormed sapling') (hheader : v.header=v'.header) (hparts : v.Parts hash qs d)
    (hparts' : v'.Parts hash qs d') :
    d=d' ↔ v.prevouts=v'.prevouts ∧ v.sequences=v'.sequences ∧ v.outputs=v'.outputs ∧
      v.joinSplits=v'.joinSplits ∧ v.shieldedSpends=v'.shieldedSpends ∧
      v.shieldedOutputs=v'.shieldedOutputs := by
  have h₁ := hparts.prevouts.eq_iff hparts'.prevouts hfree fun _ _ _ _ _ =>
    writeItems_unique outPoint_solid (by simp [outPoint]) (by simp [outPoint])
  have h₂ := hparts.sequences.eq_iff hparts'.sequences hfree fun _ _ _ _ _ =>
    writeItems_unique u32_solid (by simp) (by simp)
  have h₃ := hparts.outputs.eq_iff hparts'.outputs hfree fun vout hout vout' hout' _ =>
    writeItems_unique txOut_solid (fun o ho => by simpa using hv.outputs vout hout o ho)
      fun o ho => by simpa using hv'.outputs vout' hout' o ho
  have hjs := hparts'.joinSplits
  rw [← hheader] at hjs
  have h₄ := hparts.joinSplits.eq_iff hjs hfree fun _ _ _ _ _ => writeJoinSplits_unique
  have h₅ := hparts.shieldedSpends.eq_iff hparts'.shieldedSpends hfree fun _ _ _ _ _ =>
    writeItems_unique unsignedSpend_solid (by simp [unsignedSpend]) (by simp [unsignedSpend])
  have h₆ := hparts.shieldedOutputs.eq_iff hparts'.shieldedOutputs hfree fun _ _ _ _ _ =>
    writeItems_unique outputDescription_solid (by simp) (by simp)
  rw [← h₁,← h₂,← h₃,← h₄,← h₅,← h₆]
  cases d
  cases d'
  simp

/-- The hash of an overwintered transaction is that of another one if and only if the same is
signed. -/
theorem hashes_eq_iff (hfree : Distinct hash qs) (hv : v.WellFormed sapling)
    (hv' : v'.WellFormed sapling') (hhash : v.Hashes hash sapling qs h)
    (hhash' : v'.Hashes hash sapling' qs h') : h=h' ↔ v=v' := by
  obtain ⟨d,e,i,hparts,he,hi,hmem,rfl⟩ := hhash
  obtain ⟨d',e',i',hparts',he',hi',hmem',rfl⟩ := hhash'
  constructor
  · intro heq
    obtain ⟨hpers,hmessage⟩ := Hashed.blake2b.inj (hfree.inj _ hmem _ hmem' heq)
    have hbranch := toBytes_inj (List.append_cancel_left hpers)
    have hgroup := preimage_group he he' hmessage
    have hsapling : sapling=sapling' := by rw [hv.version,hv'.version,hgroup]
    subst hsapling
    obtain ⟨hwritten,rfl⟩ := Codec.write_inj (preimage_fits hv hparts) (preimage_fits hv' hparts')
      he he' hmessage
    have hinput := writeInput_unique hv.input hv'.input hi hi'
    simp only [OverwinterFields.written,Prod.mk.injEq] at hwritten
    obtain ⟨hheader,-,⟨h₁,h₂,h₃,h₄⟩,⟨h₅,h₆⟩,hlock,hexpiry,hvalue,htype⟩ := hwritten
    have hd : d=d' := by
      cases d
      cases d'
      simp_all
    obtain ⟨p₁,p₂,p₃,p₄,p₅,p₆⟩ := (parts_eq_iff hfree hv hv' hheader hparts hparts').mp hd
    cases v
    cases v'
    simp_all
  · rintro rfl
    have hsapling : sapling=sapling' := by rw [hv.version,hv'.version]
    subst hsapling
    have hd := (parts_eq_iff hfree hv hv' rfl hparts hparts').mpr ⟨rfl,rfl,rfl,rfl,rfl,rfl⟩
    subst hd
    rw [he] at he'
    rw [hi] at hi'
    rw [Option.some.inj he',Option.some.inj hi']

end Commitment

section Main

variable {hash : Hashed → Uint256} {a a' : Args} {qs : List Hashed} {h h' : Uint256} {s s' : Signed}

def OverwinterFields.isSapling (v : OverwinterFields) : Bool :=
  decide (v.nVersionGroupId=SAPLING_VERSION_GROUP_ID)

def Signed.Hashes (hash : Hashed → Uint256) (s : Signed) (qs : List Hashed) (h : Uint256) : Prop :=
  match s with
  | .sprout f => ∃e,sproutFormat.write f=some e ∧ .sha256d e∈qs ∧ h=hash (.sha256d e)
  | .overwinter v => v.Hashes hash v.isSapling qs h

def Signed.WellFormed (s : Signed) : Prop :=
  match s with
  | .sprout f => sproutFormat.Fits f
  | .overwinter v => v.WellFormed v.isSapling

theorem sproutFields_fits (hs : a.Sized) (hout : a.fHashSingle=true → a.nIn<a.txTo.vout.length) :
    sproutFormat.Fits (sproutFields a) := by
  have hone : 1≤MAX_SIZE := by decide
  have hinput (n : Nat) (txin : CTxIn) : (serializeInput a n txin).scriptSig.length≤MAX_SIZE := by
    rw [serializeInput]
    split
    · exact Nat.zero_le _
    · exact hs.scriptCode
  have hvin : (sproutFields a).vin.length≤MAX_SIZE ∧
      ∀i∈(sproutFields a).vin,i.scriptSig.length≤MAX_SIZE := by
    simp only [sproutFields]
    split
    · cases a.txTo.vin[a.nIn]? with
      | none => simp
      | some txin => simpa using ⟨hone,hinput a.nIn txin⟩
    · refine ⟨by simpa using hs.txTo.vin.1,fun i hi => ?_⟩
      obtain ⟨n,hn,rfl⟩ := List.mem_mapIdx.mp hi
      exact hinput n _
  have hvout : (sproutFields a).vout.length≤MAX_SIZE ∧
      ∀o∈(sproutFields a).vout,o.scriptPubKey.length≤MAX_SIZE := by
    have hnull : CTxOut.null.scriptPubKey.length≤MAX_SIZE := Nat.zero_le _
    simp only [sproutFields]
    split
    · simp
    split
    · rename_i hsingle
      have hlt := hout hsingle
      have hlen := hs.txTo.vout.1
      refine ⟨by simp; omega,fun o ho => ?_⟩
      rcases List.mem_append.mp ho with ho | ho
      · rw [List.eq_of_mem_replicate ho]
        exact hnull
      · rw [List.mem_singleton.mp ho,List.getD_eq_getElem?_getD,List.getElem?_eq_getElem hlt]
        exact hs.txTo.vout.2 _ (List.getElem_mem hlt)
    · exact hs.txTo.vout
  simp only [sproutFormat,Codec.fits_shaped,Codec.fits_andThen,Codec.fits_pair,Codec.fits_when,
    fits_vector,fits_u32,fits_u256,fits_bytes,fits_txIn,fits_txOut,fits_jsDescription,true_and,
    and_true,implies_true]
  refine ⟨hvin,hvout,⟨fun hversion => ?_,fun hversion => ?_⟩,fun hkey => ?_⟩
  · have hjs := hs.txTo.vjoinsplit
    simp only [sproutFields] at hversion ⊢
    rw [if_pos (of_decide_eq_true hversion)]
    exact hjs
  · simp only [sproutFields] at hversion ⊢
    rw [if_neg (of_decide_eq_false hversion)]
  · simp only [sproutFields] at hkey ⊢
    have hnone : (decide (2≤a.txTo.nVersion.toInt) && !a.txTo.vjoinsplit.isEmpty)=false := by
      by_cases hversion : 2≤a.txTo.nVersion.toInt
      · rwa [if_pos hversion] at hkey
      · rw [decide_eq_false hversion,Bool.false_and]
    rw [hnone,if_neg Bool.false_ne_true]

theorem overwinterFields_wellFormed (hs : a.Sized) {sapling : Bool}
    (hversion : sapling=decide (a.txTo.nVersionGroupId=SAPLING_VERSION_GROUP_ID)) :
    (a.overwinterFields sapling).WellFormed sapling := by
  refine ⟨hversion,fun vout hvout o ho => ?_,fun i hi => ?_,fun hbefore => ?_⟩
  · have houtputs : vout∈a.outputs := hvout
    rw [Args.outputs] at houtputs
    split at houtputs
    · obtain rfl := Option.some.inj houtputs
      exact hs.txTo.vout.2 o ho
    split at houtputs
    · obtain ⟨txout,hfound,rfl⟩ := Option.map_eq_some_iff.mp houtputs
      rw [List.mem_singleton.mp ho]
      exact hs.txTo.vout.2 txout (List.mem_of_getElem? hfound)
    · cases houtputs
  · have hinput : i∈a.input := hi
    rw [Args.input] at hinput
    split at hinput
    · obtain ⟨txin,-,rfl⟩ := Option.map_eq_some_iff.mp hinput
      exact hs.scriptCode
    · cases hinput
  · subst hbefore
    exact ⟨rfl,rfl,rfl⟩

/-- What `SignatureHash` computes is a function of what is signed. -/
theorem signatureHash_ran (hs : a.Sized) (hran : (signatureHash hash none a).Ran qs h) :
    a.signed.Hashes hash qs h ∧ a.signed.WellFormed := by
  rw [signatureHash,Traced.Ran.lift_bind_iff] at hran
  obtain ⟨-,-,hran⟩ := hran
  rw [Args.signed]
  rw [signatureHashVersion] at hran ⊢
  cases hf : a.txTo.fOverwintered with
  | false =>
    simp only [hf,if_neg Bool.false_ne_true,sproutHash,Traced.Ran.lift_bind_iff,reject_ok,
      expect_ok,Traced.Ran.ask_iff] at hran ⊢
    obtain ⟨-,hsingle,-,-,e,he,rfl,rfl⟩ := hran
    refine ⟨⟨e,he,List.mem_singleton_self _,rfl⟩,sproutFields_fits hs fun hflag => ?_⟩
    simpa [hflag] using hsingle
  | true =>
    simp only [hf,if_true] at hran ⊢
    by_cases hgroup : a.txTo.nVersionGroupId=SAPLING_VERSION_GROUP_ID
    · rw [if_pos hgroup] at hran ⊢
      have hsapling : true=decide (a.txTo.nVersionGroupId=SAPLING_VERSION_GROUP_ID) := by
        simp [hgroup]
      have hv : (a.overwinterFields true).isSapling=true := hsapling.symm
      have hwf := overwinterFields_wellFormed hs hsapling
      refine ⟨?_,?_⟩
      · rw [Signed.Hashes,hv]
        exact overwinterHash_ran hran
      · rw [Signed.WellFormed,hv]
        exact hwf
    · rw [if_neg hgroup] at hran ⊢
      have hsapling : false=decide (a.txTo.nVersionGroupId=SAPLING_VERSION_GROUP_ID) := by
        simp [hgroup]
      have hv : (a.overwinterFields false).isSapling=false := hsapling.symm
      have hwf := overwinterFields_wellFormed hs hsapling
      refine ⟨?_,?_⟩
      · rw [Signed.Hashes,hv]
        exact overwinterHash_ran hran
      · rw [Signed.WellFormed,hv]
        exact hwf

theorem Signed.Hashes.mono {qs' : List Hashed} (hh : s.Hashes hash qs h) (hsub : qs ⊆ qs') :
    s.Hashes hash qs' h := by
  cases s with
  | sprout f =>
    obtain ⟨e,he,hmem,hhash⟩ := hh
    exact ⟨e,he,hsub hmem,hhash⟩
  | overwinter v =>
    obtain ⟨d,e,i,hparts,he,hi,hmem,hhash⟩ := hh
    exact ⟨d,e,i,hparts.mono hsub,he,hi,hsub hmem,hhash⟩

theorem Signed.hashes_eq_iff (hfree : Distinct hash qs) (hw : s.WellFormed) (hw' : s'.WellFormed)
    (hh : s.Hashes hash qs h) (hh' : s'.Hashes hash qs h') : h=h' ↔ s=s' := by
  cases s with
  | sprout f =>
    obtain ⟨e,he,hmem,rfl⟩ := hh
    cases s' with
    | sprout f' =>
      obtain ⟨e',he',hmem',rfl⟩ := hh'
      constructor
      · intro heq
        obtain rfl := Hashed.sha256d.inj (hfree.inj _ hmem _ hmem' heq)
        exact congrArg Signed.sprout (Codec.write_inj' hw hw' he he')
      · intro hsame
        obtain rfl := Signed.sprout.inj hsame
        rw [he] at he'
        rw [Option.some.inj he']
    | overwinter v' =>
      obtain ⟨d',e',i',-,-,-,hmem',rfl⟩ := hh'
      constructor
      · intro heq
        cases hfree.inj _ hmem _ hmem' heq
      · intro hsame
        cases hsame
  | overwinter v =>
    cases s' with
    | sprout f' =>
      obtain ⟨d,e,i,-,-,-,hmem,rfl⟩ := hh
      obtain ⟨e',-,hmem',rfl⟩ := hh'
      constructor
      · intro heq
        cases hfree.inj _ hmem _ hmem' heq
      · intro hsame
        cases hsame
    | overwinter v' =>
      rw [Sighash.hashes_eq_iff hfree hw hw' hh hh']
      simp

/-- A signature commits to just what its hash type says: two signature hashes are equal if and
only if the same fields are signed, where nothing that was hashed for them collides. -/
theorem signatureHash_eq_iff (hs : a.Sized) (hs' : a'.Sized)
    (hok : (signatureHash hash none a).result=.ok h)
    (hok' : (signatureHash hash none a').result=.ok h')
    (hfree : Distinct hash
      ((signatureHash hash none a).asked++(signatureHash hash none a').asked)) :
    h=h' ↔ a.signed=a'.signed := by
  obtain ⟨hh,hw⟩ := signatureHash_ran hs (.of_result hok)
  obtain ⟨hh',hw'⟩ := signatureHash_ran hs' (.of_result hok')
  exact Signed.hashes_eq_iff hfree hw hw' (hh.mono (List.subset_append_left _ _))
    (hh'.mono (List.subset_append_right _ _))

instance (hash : Hashed → Uint256) (qs : List Hashed) : Decidable (Distinct hash qs) :=
  decidable_of_iff ((∀q∈qs,∀q'∈qs,hash q=hash q' → q=q') ∧ ∀q∈qs,hash q≠0)
    ⟨fun h => ⟨h.1,h.2⟩,fun h => ⟨h.1,h.2⟩⟩

/-- A hash that tells short messages apart. -/
def mixed : Hashed → Uint256
  | .blake2b p m => (p++m).foldl (fun acc b => acc*0x100000001b3#256+b.setWidth 256+1) 1
  | .sha256d m => m.foldl (fun acc b => acc*0x100000001b5#256+b.setWidth 256+1) 2

/-- A spend of one output, of which one coin is kept. -/
def oneSpend (nValue : BitVec 64) (nHashType : BitVec 32) : Args where
  scriptCode := [0x51]
  txTo := {CMutableTransaction.null with
    fOverwintered := true
    nVersion := SAPLING_TX_VERSION
    nVersionGroupId := SAPLING_VERSION_GROUP_ID
    vin := [⟨⟨5,0⟩,[],0xffffffff⟩]
    vout := [⟨nValue,[0x51]⟩]}
  nIn := 0
  nHashType
  amount := 200000000
  consensusBranchId := 0x76b809bb

theorem oneSpend_sized (nValue : BitVec 64) (nHashType : BitVec 32) :
    (oneSpend nValue nHashType).Sized := by
  refine ⟨⟨?_,?_,?_,?_,?_⟩,?_⟩ <;> simp [oneSpend,CMutableTransaction.null,MAX_SIZE]

/-- Another amount is another thing to sign, unless no output is signed. -/
theorem signatureHash_eq_iff_spend : ∃h h',
    (signatureHash mixed none (oneSpend 100000000 1)).result=.ok h ∧
    (signatureHash mixed none (oneSpend 100000001 1)).result=.ok h' ∧
    (h=h' ↔ (oneSpend 100000000 1).signed=(oneSpend 100000001 1).signed) := by
  have hfree : Distinct mixed ((signatureHash mixed none (oneSpend 100000000 1)).asked++
      (signatureHash mixed none (oneSpend 100000001 1)).asked) := by decide +kernel
  have hok (nValue : BitVec 64)
      (hran : (signatureHash mixed none (oneSpend nValue 1)).result.isOk) :
      ∃h,(signatureHash mixed none (oneSpend nValue 1)).result=.ok h := by
    cases hres : (signatureHash mixed none (oneSpend nValue 1)).result with
    | error e =>
      rw [hres] at hran
      cases hran
    | ok h => exact ⟨h,rfl⟩
  obtain ⟨h,hh⟩ := hok 100000000 (by decide +kernel)
  obtain ⟨h',hh'⟩ := hok 100000001 (by decide +kernel)
  exact ⟨h,h',hh,hh',signatureHash_eq_iff (oneSpend_sized _ _) (oneSpend_sized _ _) hh hh' hfree⟩

end Main

section Caching

variable {hash : Hashed → Uint256} {cache : PrecomputedTransactionData} {a : Args}

theorem cached_result {compute : Hashing Uint256} (field : PrecomputedTransactionData → Uint256)
    (h : compute.result=.ok (field cache)) (c : Bool) :
    (if c then cached (some cache) field compute else pure 0 : Hashing Uint256).result=
      (if c then cached none field compute else pure 0 : Hashing Uint256).result := by
  cases c with
  | true => exact h.symm
  | false => rfl

theorem partHashes_cached (h : (PrecomputedTransactionData.of hash a.txTo).result=.ok cache) :
    (partHashes hash (some cache) a).result=(partHashes hash none a).result := by
  simp only [PrecomputedTransactionData.of,Traced.result_bind,Traced.result_pure,bind_ok] at h
  obtain ⟨prevouts,h₁,sequence,h₂,outputs,h₃,joinSplits,h₄,spends,h₅,shielded,h₆,hcache⟩ := h
  obtain rfl := Except.ok.inj hcache
  refine Traced.result_bind_congr
    (cached_result PrecomputedTransactionData.hashPrevouts h₁ _) fun _ => ?_
  refine Traced.result_bind_congr
    (cached_result PrecomputedTransactionData.hashSequence h₂ _) fun _ => ?_
  refine Traced.result_bind_congr ?_ fun _ => ?_
  · split
    · exact h₃.symm
    · rfl
  refine Traced.result_bind_congr
    (cached_result PrecomputedTransactionData.hashJoinSplits h₄ _) fun _ => ?_
  refine Traced.result_bind_congr
    (cached_result PrecomputedTransactionData.hashShieldedSpends h₅ _) fun _ => ?_
  exact Traced.result_bind_congr
    (cached_result PrecomputedTransactionData.hashShieldedOutputs h₆ _) fun _ => rfl

/-- The hashes that are computed once for all inputs are those each input would compute. -/
theorem signatureHash_cached
    (h : (PrecomputedTransactionData.of hash a.txTo).result=.ok cache) :
    (signatureHash hash (some cache) a).result=(signatureHash hash none a).result := by
  refine Traced.result_bind_congr rfl fun _ => ?_
  cases signatureHashVersion a.txTo with
  | SPROUT => rfl
  | OVERWINTER => exact Traced.result_bind_congr (partHashes_cached h) fun _ => rfl
  | SAPLING => exact Traced.result_bind_congr (partHashes_cached h) fun _ => rfl

end Caching

end Zdeex.Sighash
