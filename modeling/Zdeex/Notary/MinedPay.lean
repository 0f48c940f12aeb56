import Mathlib.Data.List.GetD
import Zdeex.Notary.PayFaults

namespace Zdeex.Notary

open Zdeex.Framework Zdeex.Wire

section Accepted

open Probe (run field overlay Ends)

variable {E : VoutEnv} {a : VoutArgs} {push : Push} {r : VoutResult}

theorem payPubkey_ret (pubkey33 : List Byte) (vars : VoutVars) :
    (E.payPubkey a pubkey33 0 vars).ret=0 ∨ (E.payPubkey a pubkey33 0 vars).ret=64 := by
  unfold VoutEnv.payPubkey
  cases E.hushChosennotary a.height pubkey33 a.timestamp with
  | none =>
    dsimp only
    split_ifs <;> exact .inl rfl
  | some nid =>
    dsimp only
    split_ifs with hcrypto hbig hneg hother
    all_goals first | exact .inl rfl | exact .inr rfl | omega

theorem pubkeyProbe_ret (scriptlen : Nat) (vars : VoutVars) :
    Ends (fun r => r.ret=0 ∨ r.ret=64) (E.pubkeyProbe a scriptlen 0 vars) := by
  unfold VoutEnv.pubkeyProbe
  split_ifs
  · refine Ends.bind fun size => Ends.bind fun checksig => Ends.bind fun pubkey33 => ?_
    split_ifs
    · exact .pure (payPubkey_ret pubkey33 vars)
    · exact .pure (.inl rfl)
  · exact .pure (.inl rfl)

/-- The result keeps the notary of the output, if there is one. -/
def KeepsRet (r : VoutResult) (outcome : Option VoutResult) : Prop :=
  ∀r',outcome=some r' → r'.ret=r.ret

theorem keepsRet_some {r r' : VoutResult} (h : r'.ret=r.ret) : KeepsRet r (some r') := by
  rintro _ ⟨⟩
  exact h

theorem notarizationProbe_ret (name : List Byte) :
    Ends (KeepsRet r) (E.notarizationProbe a push false name r) := by
  unfold VoutEnv.notarizationProbe
  refine Ends.bind fun srchash => Ends.bind fun notarizedheight => Ends.bind fun desttxid => ?_
  change Ends _ (if (a.fJustCheck && false)=true then _ else _)
  rw [Bool.and_false,if_neg Bool.false_ne_true]
  split
  · refine Ends.bind fun mom => ?_
    obtain ⟨MoM,MoMdepth,recorded⟩ := mom
    exact .pure (keepsRet_some rfl)
  · exact .pure (keepsRet_some rfl)

theorem namedProbe_ret : Ends (·.ret=r.ret) (E.namedProbe a push r) := by
  unfold VoutEnv.namedProbe
  refine Ends.bind fun ratification => ?_
  dsimp only
  split_ifs
  · exact .pure rfl
  · refine Ends.bind fun first => ?_
    split_ifs
    · exact .bind fun opretbuf => .pure rfl
    · exact .pure rfl

/-- A push without the chain's name, or too short for it, is no notarization. -/
theorem nameProbe_ret {matched : Bool} (hshort : matched=true → ¬push.opretlen≥68) :
    Ends (KeepsRet r) (E.nameProbe a push matched r) := by
  unfold VoutEnv.nameProbe
  refine Ends.bind fun namelen => Ends.bind fun name => ?_
  cases matched with
  | false =>
    by_cases hsecond : a.j=1 ∧ push.opretlen≥nameOffset false
    · rw [if_pos hsecond]
      exact notarizationProbe_ret name
    · rw [if_neg hsecond,if_neg (fun h => Bool.false_ne_true h.1),if_neg Bool.false_ne_true]
      exact .pure (keepsRet_some rfl)
  | true =>
    rw [if_neg (fun h => hshort rfl h.2),if_neg (fun h => hshort rfl (by omega)),if_pos rfl]
    intro mem outcome hrun
    rw [Probe.run_bind,Option.bind_eq_some_iff] at hrun
    obtain ⟨r',hr',hsome⟩ := hrun
    obtain rfl := Option.some.inj hsome
    exact keepsRet_some (namedProbe_ret mem r' hr')

/-- The comparison with the chain's name ends in the script. -/
def VoutEnv.NameInside (E : VoutEnv) (s : List Byte) : Prop :=
  (pushOf s).opoffset<s.length ∧
    ¬∃t≠[],s.drop ((pushOf s).opoffset+32*2+4)++t=E.SMART_CHAIN_SYMBOL++[0]

/-- A push with the chain's name behind two hashes and a height. -/
def VoutEnv.Named (E : VoutEnv) (s : List Byte) : Prop :=
  s.getD 0 0=0x6a ∧ s.getD (pushOf s).opoffset 0≠0x4b ∧ E.matchedIn s (pushOf s)=true ∧
    (pushOf s).opretlen≥68

variable {s : List Byte} {stale : Nat → Byte}

/-- The block that a notarization of this chain is about. -/
def sourceHash (s : List Byte) : Uint256 := field s 256 (pushOf s).opoffset

def sourceHeight (s : List Byte) : Int32 := field s 32 ((pushOf s).opoffset+32)

/-- With the chain's name the check ends behind the height. -/
theorem run_nameProbe_check (hmatched : E.matchedIn s push=true)
    (hmax : s.length≤DRAGON_MAXSCRIPTSIZE) (hcheck : a.fJustCheck=true) (hj : a.j=1)
    (hlong : push.opretlen≥68) :
    run (overlay s stale) (E.nameProbe a push true r)=
      some ((E.hushValidateChain (field s 256 push.opoffset)
        (field s 32 (push.opoffset+32))).map fun _ =>
          ⟨-2,{r.vars with notarizedheight := field s 32 (push.opoffset+32)},r.events⟩) := by
  obtain ⟨-,hstart⟩ := matchedIn_iff.mp hmatched
  have hoffset : push.opoffset+nameOffset true=push.opoffset+32*2+4 := rfl
  have hnull : ∃b∈s.drop (push.opoffset+nameOffset true),(b==0)=true :=
    ⟨0,hstart.subset (by simp),rfl⟩
  have hfuel : s.length<push.opoffset+nameOffset true+DRAGON_MAXSCRIPTSIZE := by omega
  have hlt : push.opoffset+nameOffset true<s.length := by
    have hlen := hstart.length_le
    rw [List.length_append,List.length_drop,List.length_singleton] at hlen
    omega
  have hname : run (overlay s stale) (Probe.span (·==0) DRAGON_MAXSCRIPTSIZE
      (push.opoffset+nameOffset true))=some (nameAt s (push.opoffset+nameOffset true)).length :=
    Probe.run_span ((Probe.safe_span stale _ hfuel).mpr hnull)
  have hbytes : run (overlay s stale) (Probe.bytes (push.opoffset+nameOffset true)
      (nameAt s (push.opoffset+nameOffset true)).length)=
        some (nameAt s (push.opoffset+nameOffset true)) := by
    have hle := nameAt_length_le s (push.opoffset+nameOffset true)
    rw [Probe.run_bytes_overlay (.inr (by omega)),take_nameAt]
  have hsrc : run (overlay s stale) (Probe.word 256 push.opoffset)=
      some (field s 256 push.opoffset) := Probe.run_word_overlay (by omega)
  have hheight : run (overlay s stale) (Probe.word 32 (push.opoffset+32))=
      some (field s 32 (push.opoffset+32)) := Probe.run_word_overlay (by omega)
  obtain ⟨desttxid,hdest⟩ := Option.isSome_iff_exists.mp
    (safe_desttxidProbe stale hlt.le).isSome
  rw [VoutEnv.nameProbe,Probe.run_bind,hname,Option.bind_some,Probe.run_bind,hbytes,
    Option.bind_some,if_pos ⟨hj,hlong⟩,VoutEnv.notarizationProbe,Probe.run_bind,hsrc,
    Option.bind_some,Probe.run_bind,hheight,Option.bind_some,Probe.run_bind,hdest,
    Option.bind_some,VoutEnv.validated,if_pos rfl]
  cases E.hushValidateChain (field s 256 push.opoffset) (field s 32 (push.opoffset+32)) with
  | none => rfl
  | some validated =>
    dsimp only
    rw [if_pos (by rw [hcheck]; rfl)]
    rfl

theorem byte_overlay {i : Nat} (hi : i<s.length) : overlay s stale i=s.getD i 0 := by
  simp [overlay,List.getElem?_eq_getElem hi]

variable {c : PayChain} {u : PayLocals} {timestamp : BitVec 32} {height : Int32}

/-- For a script with a name that ends inside, the check finds a notarization of this chain
whose source is known, or none. -/
theorem run_check (stale : Nat → Byte) (timestamp : BitVec 32) (height : Int32)
    (hmin : 4 ≤ s.length) (hmax : s.length≤DRAGON_MAXSCRIPTSIZE) (hinside : E.NameInside s)
    (vars : VoutVars) :
    (E.Named s → ∃r : VoutResult,r.ret=-2 ∧ r.vars.notarizedheight=sourceHeight s ∧
      run (overlay s stale) (hushVoutupdate E (checkArgs timestamp height) s.length 0 vars)=
        some ((E.hushValidateChain (sourceHash s) (sourceHeight s)).map fun _ => r)) ∧
      (¬E.Named s → ∀r,
        run (overlay s stale) (hushVoutupdate E (checkArgs timestamp height) s.length 0 vars)=
          some (some r) → r.ret≠-2) := by
  obtain ⟨-,r,hr,-⟩ := pubkeyProbe_spec E (checkArgs timestamp height) s stale 0 vars
  have hret : r.ret≠-2 := by
    rcases pubkeyProbe_ret s.length vars _ r hr with h | h <;> rw [h] <;> decide
  rw [hushVoutupdate,Probe.run_bind,hr,Option.bind_some,Probe.run_bind,Probe.run_byte,
    Option.bind_some,byte_overlay (by omega)]
  by_cases hop : s.getD 0 0=0x6a
  · rw [if_pos hop,Probe.run_bind,(pushProbe_spec stale hmin).2,Option.bind_some,
      VoutEnv.opreturnProbe]
    have hother : ∀matched,(matched=true → ¬(pushOf s).opretlen≥68) → ∀r',
        run (overlay s stale) (E.nameProbe (checkArgs timestamp height) (pushOf s) matched r)=
          some (some r') → r'.ret≠-2 := by
      intro matched hshort r' hrun
      rw [nameProbe_ret hshort _ _ hrun r' rfl]
      exact hret
    by_cases hsym : E.SMART_CHAIN_SYMBOL=[]
    · rw [if_pos hsym]
      exact ⟨fun h => absurd hsym (matchedIn_iff.mp h.2.2.1).1,
        fun _ => hother false (fun h => absurd h Bool.false_ne_true)⟩
    · rw [if_neg hsym,Probe.run_bind,Probe.run_byte,Option.bind_some,byte_overlay hinside.1]
      by_cases hkv : s.getD (pushOf s).opoffset 0=0x4b
      · rw [if_pos hkv,Probe.run_bind,Probe.run_bytes,Option.bind_some]
        refine ⟨fun h => absurd hkv h.2.1,fun _ r' hr' => ?_⟩
        obtain rfl := Option.some.inj (Option.some.inj hr')
        exact (by decide : (-1 : Int)≠-2)
      · have hmatched : E.matchedIn s (pushOf s)=decide (E.SMART_CHAIN_SYMBOL++[0]<+:
            s.drop ((pushOf s).opoffset+32*2+4)) := by
          simp only [VoutEnv.matchedIn,hsym,ne_eq,not_false_eq_true,true_and]
        rw [if_neg hkv,Probe.run_bind,
          Probe.run_strcmp ((Probe.safe_strcmp stale _ _).mpr hinside.2),Option.bind_some,←hmatched]
        refine ⟨fun h => ?_,fun hnot => hother _ (fun h hge => hnot ⟨hop,hkv,h,hge⟩)⟩
        rw [h.2.2.1,run_nameProbe_check h.2.2.1 hmax rfl rfl h.2.2.2]
        exact ⟨_,rfl,rfl,rfl⟩
  · rw [if_neg hop]
    refine ⟨fun h => absurd h.1 hop,fun _ r' hr' => ?_⟩
    obtain rfl := Option.some.inj (Option.some.inj hr')
    exact hret

/-- The height of a notarization whose name ends in the script is a function of the
script. -/
theorem notarizes_iff (hinside : c.parser.NameInside s) :
    c.Notarizes u timestamp height s ↔
      (4 ≤ s.length ∧ s.length≤DRAGON_MAXSCRIPTSIZE) ∧ c.parser.Named s ∧ sourceHeight s≠0 ∧
        (c.parser.hushValidateChain (sourceHash s) (sourceHeight s)).isSome := by
  unfold PayChain.Notarizes PayChain.hushGetnotarizedheight
  by_cases hlen : 4 ≤ s.length ∧ s.length≤DRAGON_MAXSCRIPTSIZE
  · rw [if_pos hlen,and_iff_right hlen]
    obtain ⟨hnamed,hnot⟩ := run_check u.scriptbuf timestamp height hlen.1 hlen.2 hinside u.vars
    by_cases hname : c.parser.Named s
    · obtain ⟨r,hret,hheight,hrun⟩ := hnamed hname
      rw [hrun,and_iff_right hname]
      cases c.parser.hushValidateChain (sourceHash s) (sourceHeight s) with
      | none =>
        refine iff_of_false ?_ (fun h => absurd h.2 (by decide))
        rintro ⟨n,-,h⟩
        cases h
      | some validated =>
        dsimp only [Option.map_some]
        rw [if_pos hret,hheight]
        constructor
        · rintro ⟨n,hne,h⟩
          obtain rfl := Except.ok.inj h
          exact ⟨hne,rfl⟩
        · intro h
          exact ⟨_,h.1,rfl⟩
    · refine iff_of_false ?_ (fun h => hname h.1)
      rintro ⟨n,hne,h⟩
      cases hrun : run (overlay s u.scriptbuf) (hushVoutupdate c.parser
          (checkArgs timestamp height) s.length 0 u.vars) with
      | none =>
        rw [hrun] at h
        cases h
      | some outcome =>
        rw [hrun] at h
        cases outcome with
        | none => cases h
        | some r =>
          dsimp only at h
          rw [if_neg (hnot hname r hrun)] at h
          exact hne (Except.ok.inj h).symm
  · rw [if_neg hlen]
    refine iff_of_false ?_ (fun h => hlen h.1)
    rintro ⟨n,hne,h⟩
    exact hne (Except.ok.inj h).symm

end Accepted

section Miner

/-- The coins that the miner sees, whether imports of pegs have inputs without coins, and
the prices for an output of `ASSETCHAINS_CBOPRET`. -/
structure MinerView where
  haveCoins : Uint256 → Bool
  pegs : Bool
  Mineropret : Option (List Byte)

/-- What `CreateNewBlock` has when it comes to the outputs of the coinbase. -/
structure Template where
  nTime : BitVec 32
  minerOut : CTxOut
  notarization : CTransaction

def hushIsNotarytx (tx : CTransaction) : Bool :=
  match tx.vout with
  | [] => false
  | out::_ => pubkeyOf out.scriptPubKey==crypto555

def MinerView.isPegsImport (view : MinerView) (tx : CTransaction) : Bool :=
  match tx.vin with
  | [] => false
  | txin::_ => view.pegs && txin.prevout.n==1000000000

/-- `CScript() << vch`. -/
def scriptPush (vch : List Byte) : List Byte :=
  if vch.length<0x4c then BitVec.ofNat 8 vch.length::vch
  else if vch.length≤0xff then 0x4c::BitVec.ofNat 8 vch.length::vch
  else if vch.length≤0xffff then 0x4d::(toBytes (BitVec.ofNat 16 vch.length)++vch)
  else 0x4e::(toBytes (BitVec.ofNat 32 vch.length)++vch)

def PRICES_SIZEBIT0 : Nat := 16

def hushMineropret (Mineropret : List Byte) : List Byte :=
  if Mineropret.length≥PRICES_SIZEBIT0 then 0x6a::scriptPush Mineropret else []

def MinerView.cbopret (view : MinerView) : List CTxOut :=
  match view.Mineropret with
  | none => []
  | some prices => [⟨0,hushMineropret prices⟩]

variable (c : PayChain) (view : MinerView)

/-- `TMP_NotarizationNotaries`. -/
def PayChain.templateNotaries (notarypubkeys : List (List Byte)) (tx : CTransaction) :
    List Nat :=
  tx.vin.flatMap fun txin =>
    if view.isPegsImport tx=true ∧ txin.prevout.n=(1000000000 : BitVec 32) then []
    else if view.haveCoins txin.prevout.hash=false then []
    else if noNotaries notarypubkeys=false ∧ hushIsNotarytx tx then
      match c.getTransaction txin.prevout.hash with
      | none => []
      | some tx1 =>
          notariesOf notarypubkeys (tx1.vout.getD txin.prevout.n.toNat nullOut).scriptPubKey
    else []

/-- The total and the outputs of the coinbase that `CreateNewBlock` builds for a
notarization; `none` when there is no payment to build or the miner crashes. The first locals
belong to the call that accepts the notarization. -/
def PayChain.payTemplate (u u' : PayLocals) (t : Template) (height : Int32) :
    Option (BitVec 64 × List CTxOut) :=
  let notarypubkeys := c.hushNotaries height t.nTime
  let notaries := c.templateNotaries view notarypubkeys t.notarization
  if noNotaries notarypubkeys ∨ notaries.length<notarypubkeys.length/5 ∨ ¬notaries.Nodup then
    none
  else
    match notarizationScript t.notarization with
    | some (op::script) =>
        if op≠0x6a then none
        else
          match c.hushGetnotarizedheight u t.nTime height (op::script) with
          | .error _ => none
          | .ok notarizedheight =>
              if notarizedheight=0 then none
              else
                match c.hushNotarypay u' [t.minerOut] notaries t.nTime height (op::script) with
                | .error _ => none
                | .ok (totalsats,vout) =>
                    if totalsats=0 then none else some (totalsats,vout++view.cbopret)
    | _ => none

end Miner

section Mined

variable {c : PayChain} {view : MinerView} {u u' : PayLocals} {height : Int32}

/-- Every input of the notarization is confirmed and found. -/
def InputsFound (c : PayChain) (view : MinerView) (tx : CTransaction) : Prop :=
  view.isPegsImport tx=false ∧ ∀txin∈tx.vin,view.haveCoins txin.prevout.hash=true ∧
    ∃tx1,c.getTransaction txin.prevout.hash=some tx1 ∧ txin.prevout.n.toNat<tx1.vout.length

theorem gatherNotaries_eq {notarypubkeys : List (List Byte)} (vin : List CTxIn)
    (hfound : ∀txin∈vin,∃tx1,c.getTransaction txin.prevout.hash=some tx1 ∧
      txin.prevout.n.toNat<tx1.vout.length) :
    c.gatherNotaries notarypubkeys vin=.ok (some (vin.flatMap fun txin =>
      match c.getTransaction txin.prevout.hash with
      | none => []
      | some tx1 => notariesOf notarypubkeys
          (tx1.vout.getD txin.prevout.n.toNat nullOut).scriptPubKey)) := by
  induction vin with
  | nil => rfl
  | cons txin vin ih =>
    obtain ⟨tx1,htx,hlt⟩ := hfound txin (by simp)
    rw [PayChain.gatherNotaries,ih fun t ht => hfound t (by simp [ht]),List.flatMap_cons]
    simp only [htx,List.getElem?_eq_getElem hlt]
    simp [List.getD,List.getElem?_eq_getElem hlt]

/-- The miner and the check gather the same signers. -/
theorem templateNotaries_eq {notarypubkeys : List (List Byte)} {tx : CTransaction}
    (hinputs : InputsFound c view tx) (hkeys : noNotaries notarypubkeys=false)
    (hnotary : hushIsNotarytx tx=true) :
    c.getNotarizationNotaries notarypubkeys tx.vin=
      .ok (some (c.templateNotaries view notarypubkeys tx)) := by
  rw [PayChain.getNotarizationNotaries,hkeys,if_neg Bool.false_ne_true,
    gatherNotaries_eq tx.vin fun txin h => (hinputs.2 txin h).2,PayChain.templateNotaries]
  have hsame : ∀txin∈tx.vin,(if view.isPegsImport tx=true ∧
      txin.prevout.n=(1000000000 : BitVec 32) then []
      else if view.haveCoins txin.prevout.hash=false then []
      else if noNotaries notarypubkeys=false ∧ hushIsNotarytx tx then
        match c.getTransaction txin.prevout.hash with
        | none => []
        | some tx1 => notariesOf notarypubkeys
            (tx1.vout.getD txin.prevout.n.toNat nullOut).scriptPubKey
      else [])=
      match c.getTransaction txin.prevout.hash with
      | none => []
      | some tx1 => notariesOf notarypubkeys
          (tx1.vout.getD txin.prevout.n.toNat nullOut).scriptPubKey := by
    intro txin htxin
    rw [if_neg (fun h => by rw [hinputs.1] at h; exact Bool.false_ne_true h.1),
      if_neg (by rw [(hinputs.2 txin htxin).1]; decide),
      if_pos ⟨hkeys,hnotary⟩]
  rw [List.flatMap_congr hsame]

theorem payTemplate_some {t : Template} {total : BitVec 64} {vout : List CTxOut}
    (h : c.payTemplate view u u' t height=some (total,vout)) :
    noNotaries (c.hushNotaries height t.nTime)=false ∧
      (c.templateNotaries view (c.hushNotaries height t.nTime) t.notarization).Nodup ∧
      ∃script paid,notarizationScript t.notarization=some (0x6a::script) ∧ total≠0 ∧
        c.hushNotarypay u' [t.minerOut]
          (c.templateNotaries view (c.hushNotaries height t.nTime) t.notarization) t.nTime height
          (0x6a::script)=.ok (total,paid) ∧ vout=paid++view.cbopret := by
  unfold PayChain.payTemplate at h
  dsimp only at h
  split_ifs at h with hnot
  rw [not_or,not_or,not_not] at hnot
  obtain ⟨hkeys,-,hnodup⟩ := hnot
  refine ⟨by simpa using hkeys,hnodup,?_⟩
  cases hscript : notarizationScript t.notarization with
  | none =>
    rw [hscript] at h
    cases h
  | some script =>
    rw [hscript] at h
    cases script with
    | nil => cases h
    | cons op script =>
      dsimp only at h
      split_ifs at h with hop
      rw [not_not] at hop
      subst hop
      cases hheight : c.hushGetnotarizedheight u t.nTime height (0x6a::script) with
      | error e =>
        rw [hheight] at h
        cases h
      | ok notarizedheight =>
        rw [hheight] at h
        dsimp only at h
        split_ifs at h
        cases hpay : c.hushNotarypay u' [t.minerOut]
            (c.templateNotaries view (c.hushNotaries height t.nTime) t.notarization) t.nTime
            height (0x6a::script) with
        | error e =>
          rw [hpay] at h
          cases h
        | ok result =>
          obtain ⟨totalsats,paid⟩ := result
          rw [hpay] at h
          dsimp only at h
          split_ifs at h with htotal
          obtain ⟨rfl,rfl⟩ := Prod.mk.inj (Option.some.inj h)
          exact ⟨script,paid,rfl,htotal,hpay,rfl⟩

/-- The outputs that `hush_notarypay` makes pass the test for their position. -/
theorem paidAt_payTo {notarypubkeys : List (List Byte)} {notaries : List Nat}
    (h33 : ∀key∈notarypubkeys,key.length=33) (hlt : ∀i∈notaries,i<notarypubkeys.length)
    (AmountToPay : BitVec 64) {q : Nat} (hq : 1≤q) (hle : q≤notaries.length) :
    paidAt notarypubkeys notaries AmountToPay q
      (payTo notarypubkeys AmountToPay (notaries.getD (q-1) 0)) := by
  have hmem : notaries.getD (q-1) 0∈notaries := by
    rw [List.getD_eq_getElem _ _ (by omega)]
    exact List.getElem_mem _
  have hkey : (notarypubkeys.getD (notaries.getD (q-1) 0) []).length=33 := by
    apply h33
    rw [List.getD_eq_getElem _ _ (hlt _ hmem)]
    exact List.getElem_mem _
  refine ⟨⟨?_,rfl,?_⟩,?_,rfl⟩
  · rw [payTo,List.length_cons,List.length_append,hkey]
    rfl
  · rw [payTo,List.getD_cons_succ,List.getD_append_right _ _ _ _ (by omega),hkey]
    rfl
  · rw [pubkeyOf,payTo,List.drop_succ_cons,List.drop_zero,←hkey]
    exact List.take_left

/-- The output with the prices pays nobody. -/
theorem not_payToPubkey_cbopret (view : MinerView) :
    ∀out∈view.cbopret,¬payToPubkey out.scriptPubKey := by
  intro out hout
  unfold MinerView.cbopret at hout
  cases hprices : view.Mineropret with
  | none =>
    rw [hprices] at hout
    cases hout
  | some prices =>
    rw [hprices,List.mem_singleton] at hout
    subst hout
    unfold hushMineropret
    split_ifs
    · rintro ⟨-,hfirst,-⟩
      exact absurd (show (0x6a : Byte)=33 from hfirst) (by decide)
    · rintro ⟨hlen,-⟩
      cases hlen

variable {minerOut : CTxOut} {notarypubkeys : List (List Byte)} {notaries : List Nat}
  {AmountToPay : BitVec 64}

theorem mined_getElem? {q : Nat} (hq : 1≤q) (hle : q≤notaries.length) :
    (([minerOut]++notaries.map (payTo notarypubkeys AmountToPay))++view.cbopret)[q]?=
      some (payTo notarypubkeys AmountToPay (notaries.getD (q-1) 0)) := by
  obtain ⟨p,rfl⟩ : ∃p,q=p+1 := ⟨q-1,by omega⟩
  have hlt : p<notaries.length := hle
  rw [List.getElem?_append_left (by simp; omega),List.singleton_append,List.getElem?_cons_succ,
    List.getElem?_map,List.getElem?_eq_getElem hlt,Nat.add_sub_cancel,
    List.getD_eq_getElem _ _ hlt]
  rfl

theorem mined_plain : PlainBehind notaries
    (([minerOut]++notaries.map (payTo notarypubkeys AmountToPay))++view.cbopret) := by
  intro q out hq hout
  rw [List.getElem?_append_right (by simp; omega)] at hout
  exact not_payToPubkey_cbopret view out (List.mem_of_getElem? hout)

theorem templateNotaries_eq_nil {tx : CTransaction} (hnotary : ¬hushIsNotarytx tx=true) :
    c.templateNotaries view notarypubkeys tx=[] := by
  rw [PayChain.templateNotaries,List.flatMap_eq_nil_iff]
  intro txin htxin
  split_ifs with hpegs hcoins hboth
  · rfl
  · rfl
  · exact absurd hboth.2 hnotary
  · rfl

/-- The check makes the payments of the miner again. -/
theorem rebuild_mined (pblock : PayBlock) {script : List Byte}
    (hkeys : noNotaries (c.hushNotaries height pblock.nTime)=false)
    (hgather : c.getNotarizationNotaries (c.hushNotaries height pblock.nTime)
      pblock.notarization.vin=.ok (some notaries)) (hnodup : notaries.Nodup)
    (hscript : notarizationScript pblock.notarization=some (0x6a::script))
    (hheight : c.Notarizes u pblock.nTime height (0x6a::script))
    (hamount : c.hushNotarypayamount height notaries.length≠0) (hne : notaries≠[]) :
    c.rebuild u pblock height=.ok (some ⟨notaries,
      BitVec.ofNat 64 notaries.length*c.hushNotarypayamount height notaries.length,
      c.hushNotarypayamount height notaries.length⟩) := by
  have hlen := notaries_length_le hgather hnodup
  have hpay := hushNotarypay_pays [] hlen hkeys hheight hamount
  have htotal : BitVec.ofNat 64 notaries.length*
      c.hushNotarypayamount height notaries.length≠0 := by
    intro hzero
    have hnat := toNat_hushNotarypayamount_mul c height hlen
    rw [hzero] at hnat
    have hpos := Nat.mul_pos (List.length_pos_of_ne_nil hne)
      (Nat.pos_of_ne_zero fun h => hamount (BitVec.eq_of_toNat_eq h))
    change 0=_ at hnat
    omega
  rw [PayChain.rebuild,hgather]
  change (if ¬notaries.Nodup then _ else _)=_
  rw [if_neg (not_not_intro hnodup),hscript]
  dsimp only
  obtain ⟨first,rest,rfl⟩ := List.exists_cons_of_ne_nil hne
  rw [if_pos rfl,hpay]
  change (if _=0 then _ else _)=_
  rw [if_neg htotal]
  rfl

/-- The coinbase that is built for a notarization is accepted with its total when the keys
are those of the block's time, the inputs are found and the chain's name ends in the
script. -/
theorem payTemplate_accepted {t : Template} {nTime : BitVec 32} {total : BitVec 64}
    {vout : List CTxOut} (u'' : PayLocals)
    (h : c.payTemplate view u u' t height=some (total,vout))
    (hsame : c.hushNotaries height nTime=c.hushNotaries height t.nTime)
    (hinputs : InputsFound c view t.notarization)
    (hinside : ∀script,notarizationScript t.notarization=some script →
      c.parser.NameInside script) :
    c.hushChecknotarypay u'' ⟨nTime,vout,t.notarization⟩ height=.ok total := by
  obtain ⟨hkeys,hnodup,script,paid,hscript,htotal,hpay,rfl⟩ := payTemplate_some h
  obtain ⟨-,hheight,hamount⟩ := hushNotarypay_ne_zero hpay htotal
  have hnotary : hushIsNotarytx t.notarization=true := by
    by_contra hnot
    rw [templateNotaries_eq_nil hnot] at hamount
    exact hamount (hushNotarypayamount_zero c height)
  have hgather := templateNotaries_eq hinputs hkeys hnotary
  generalize c.templateNotaries view (c.hushNotaries height t.nTime) t.notarization=notaries
    at hgather hnodup hpay hamount
  have hlen := notaries_length_le hgather hnodup
  have hne : notaries≠[] := by
    rintro rfl
    exact hamount (hushNotarypayamount_zero c height)
  have hlt : ∀i∈notaries,i<(c.hushNotaries height t.nTime).length := by
    unfold PayChain.getNotarizationNotaries at hgather
    rw [hkeys,if_neg Bool.false_ne_true] at hgather
    exact gatherNotaries_lt hgather
  rw [hushNotarypay_pays _ hlen hkeys hheight hamount] at hpay
  obtain ⟨rfl,rfl⟩ := Prod.mk.inj (Except.ok.inj hpay)
  have hone : (resized [t.minerOut] (notaries.length+1)).take 1=[t.minerOut] := rfl
  have hnow : c.Notarizes u'' nTime height (0x6a::script) :=
    (notarizes_iff (hinside _ hscript)).mpr ((notarizes_iff (hinside _ hscript)).mp hheight)
  rw [hone]
  have hrebuild := rebuild_mined ⟨nTime,[t.minerOut]++notaries.map
    (payTo (c.hushNotaries height t.nTime) (c.hushNotarypayamount height notaries.length))++
      view.cbopret,t.notarization⟩ (by rwa [hsame]) (by rwa [hsame]) hnodup hscript hnow hamount hne
  rw [hushChecknotarypay_eq hrebuild mined_plain,if_pos]
  dsimp only
  rw [hsame]
  refine (countPaid_of_paidAt mined_plain _ le_rfl rfl fun q hq hle => ?_).trans
    (Nat.add_sub_cancel _ 1)
  exact ⟨_,mined_getElem? hq hle,paidAt_payTo (c.notaries_33 height t.nTime) hlt _ hq hle⟩

end Mined

section Blocks

def notaryKey : List Byte := 2::List.replicate 32 1

def payScript (key : List Byte) : List Byte := 33::(key++[OP_CHECKSIG])

/-- A notarization of block 9 of `ZDEEX`. -/
def notarizationOpReturn : List Byte :=
  0x6a::74::(List.replicate 32 7++[9,0,0,0]++List.replicate 32 8++
    [0x5a,0x44,0x45,0x45,0x58,0x00])

def spentTx : CTransaction :=
  {CMutableTransaction.null with hash := 5,vout := [⟨0,payScript notaryKey⟩]}

def signedTx : CTransaction :=
  {CMutableTransaction.null with
    hash := 6
    vin := [⟨⟨5,0⟩,[],0⟩]
    vout := [⟨0,payScript crypto555⟩,⟨0,notarizationOpReturn⟩]}

/-- One era, one notary and a payment of 1000. -/
def singleNotary : PayChain where
  eras := {Emission.premineArgs with
    REWARD := fun _ => 0,HALVING := fun _ => 0,SUPPLY := 0,z2zheight := 0,SUPPLY_le := by decide}
  ASSETCHAINS_NOTARY_PAY _ := 1000
  hushNotaries _ _ := [notaryKey]
  getTransaction _ := some spentTx
  parser := zdeexEnv
  notaries_le _ _ := by decide
  notaries_33 _ _ := List.forall_mem_singleton.mpr (by decide)

def freshLocals : PayLocals := ⟨fun _ => 0,freshVars⟩

def minerView : MinerView := ⟨fun _ => true,false,some (List.replicate 16 1)⟩

def singleTemplate : Template := ⟨1000,⟨300000000,[]⟩,signedTx⟩

/-- The miner's output, the notary's and the prices. -/
def singleCoinbase : List CTxOut :=
  [⟨300000000,[]⟩,⟨1000,payScript notaryKey⟩,⟨0,0x6a::16::List.replicate 16 1⟩]

theorem singleTemplate_pays :
    singleNotary.payTemplate minerView freshLocals freshLocals singleTemplate 100=
      some (1000,singleCoinbase) := by decide +kernel

theorem singleCoinbase_cover :
    SignersCover singleNotary freshLocals ⟨2000,singleCoinbase,signedTx⟩ 100 := by
  refine ⟨rebuild_ok_iff.mp ⟨some ⟨[0],1000,1000⟩,by decide +kernel⟩,fun r hr q out hq hout => ?_⟩
  obtain ⟨-,-,hne,-,-,-⟩ := rebuild_some hr
  have hpos : 0 < r.NotarizationNotaries.length := List.length_pos_of_ne_nil hne
  have hlt : q<3 := (List.getElem?_eq_some_iff.mp hout).1
  obtain rfl : q=2 := by omega
  obtain rfl := Option.some.inj hout
  decide

/-- A second output to a public key in the coinbase of a block with one signer. -/
def extraCoinbase : List CTxOut :=
  [⟨300000000,[]⟩,⟨1000,payScript notaryKey⟩,⟨0,payScript notaryKey⟩]

/-- A node behind its initial download that does not know the notarized block. -/
def unknownSource : PayChain :=
  {singleNotary with parser := {zdeexEnv with hushGetblockindex := fun _ => none}}

end Blocks

end Zdeex.Notary
