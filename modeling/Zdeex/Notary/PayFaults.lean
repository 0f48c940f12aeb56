import Zdeex.Notary.NotaryPay

namespace Zdeex.Notary

open Zdeex.Framework Zdeex.Wire

section Parser

open Probe (run overlay)

variable {α β : Type} {mem : Nat → Byte} {E : VoutEnv} {a : VoutArgs} {push : Push}

/-- Behind a computation that never faults nothing has faulted yet. -/
theorem isSome_bind {p : Probe α} {f : α → Probe β} (hp : (run mem p).isSome)
    (hf : ∀x,(run mem (f x)).isSome) : (run mem (p>>=f)).isSome := by
  obtain ⟨x,hx⟩ := Option.isSome_iff_exists.mp hp
  rw [Probe.run_bind,hx,Option.bind_some]
  exact hf x

theorem isSome_byte (mem : Nat → Byte) (i : Nat) : (run mem (Probe.byte i)).isSome := rfl

theorem isSome_bytes (mem : Nat → Byte) (i n : Nat) : (run mem (Probe.bytes i n)).isSome := by
  rw [Probe.run_bytes]
  rfl

theorem isSome_word (mem : Nat → Byte) (w i : Nat) : (run mem (Probe.word w i)).isSome := by
  rw [Probe.run_word]
  rfl

theorem isSome_strcmp (mem : Nat → Byte) (str : List Byte) (i : Nat) :
    (run mem (Probe.strcmp str i)).isSome := by
  induction str generalizing i with
  | nil => rfl
  | cons ch str ih =>
    refine isSome_bind (isSome_byte mem i) fun b => ?_
    split_ifs
    · exact ih (i+1)
    · rfl

/-- The count ends when something stops it before the fuel is used up. -/
theorem isSome_span_iff (mem : Nat → Byte) (stop : Byte → Bool) (fuel i : Nat) :
    (run mem (Probe.span stop fuel i)).isSome ↔ ∃k<fuel,stop (mem (i+k))=true := by
  induction fuel generalizing i with
  | zero => simp [Probe.span,Probe.run]
  | succ fuel ih =>
    rw [Probe.span,Probe.run_bind,Probe.run_byte,Option.bind_some]
    by_cases hstop : stop (mem i)=true
    · rw [if_pos hstop]
      exact iff_of_true rfl ⟨0,by omega,hstop⟩
    · rw [if_neg hstop,Probe.run_bind,Option.isSome_bind]
      have hstep : (run mem (Probe.span stop fuel (i+1))).any (fun n =>
          (run mem (pure (n+1) : Probe Nat)).isSome)=
            (run mem (Probe.span stop fuel (i+1))).isSome := by
        cases run mem (Probe.span stop fuel (i+1)) <;> rfl
      rw [hstep,ih]
      constructor
      · rintro ⟨k,hk,h⟩
        exact ⟨k+1,by omega,by rwa [show i+(k+1)=i+1+k by omega]⟩
      · rintro ⟨k,hk,h⟩
        cases k with
        | zero => exact absurd h hstop
        | succ k => exact ⟨k,by omega,by rwa [show i+1+k=i+(k+1) by omega]⟩

theorem isSome_pairsProbe (mem : Nat → Byte) (n len : Nat) :
    (run mem (pairsProbe n len)).isSome := by
  induction n generalizing len with
  | zero => rfl
  | succ n ih =>
    exact isSome_bind (isSome_word _ _ _) fun _ => isSome_bind (isSome_word _ _ _) fun _ =>
      isSome_bind (ih _) fun _ => rfl

theorem isSome_MoMoMProbe (mem : Nat → Byte) (push : Push) (len : Nat) :
    (run mem (MoMoMProbe push len)).isSome := by
  refine isSome_bind (isSome_word _ _ _) fun _ => isSome_bind (isSome_word _ _ _) fun _ =>
    isSome_bind (isSome_word _ _ _) fun _ => isSome_bind (isSome_word _ _ _) fun _ =>
    isSome_bind (isSome_word _ _ _) fun _ => ?_
  split_ifs
  · exact isSome_bind (isSome_pairsProbe _ _ _) fun _ => rfl
  · rfl

theorem isSome_CCidProbe (mem : Nat → Byte) (E : VoutEnv) (push : Push) (len : Nat)
    (symbol : List Byte) : (run mem (E.CCidProbe push len symbol)).isSome := by
  unfold VoutEnv.CCidProbe
  by_cases hroom : len+4-push.opoffset≤push.opretlen
  · rw [if_pos hroom]
    refine isSome_bind (isSome_word _ _ _) fun CCid => ?_
    split_ifs
    · rfl
    · exact isSome_bind (isSome_MoMoMProbe _ _ _) fun _ => rfl
    · rfl
  · rw [if_neg hroom]
    rfl

theorem isSome_MoMProbe (mem : Nat → Byte) (E : VoutEnv) (a : VoutArgs) (push : Push)
    (len : Nat) (symbol : List Byte) (notarizedheight : Int32) :
    (run mem (E.MoMProbe a push len symbol notarizedheight)).isSome := by
  unfold VoutEnv.MoMProbe
  by_cases hroom : len+36-push.opoffset≤push.opretlen
  · rw [if_pos hroom]
    refine isSome_bind (isSome_word _ _ _) fun _ => isSome_bind (isSome_word _ _ _) fun _ =>
      isSome_bind (isSome_CCidProbe _ _ _ _ _) fun r => ?_
    obtain ⟨CCid,cclen,MoMoMdata⟩ := r
    dsimp only
    split_ifs <;> rfl
  · rw [if_neg hroom]
    rfl

/-- A push that is too short for the name is only looked at where it starts. -/
theorem isSome_namedProbe (mem : Nat → Byte) (hshort : ¬push.opretlen≥32*2+4)
    (r : VoutResult) : (run mem (E.namedProbe a push r)).isSome := by
  unfold VoutEnv.namedProbe VoutEnv.ratificationProbe
  rw [if_neg hshort]
  refine isSome_bind rfl fun ratification => ?_
  dsimp only
  split_ifs
  · rfl
  · refine isSome_bind (isSome_byte _ _) fun first => ?_
    split_ifs
    · exact isSome_bind (isSome_bytes _ _ _) fun _ => rfl
    · rfl

/-- The buffer holds the chain's name behind two hashes and a height. -/
def VoutEnv.matchedAt (E : VoutEnv) (mem : Nat → Byte) (push : Push) : Bool :=
  E.SMART_CHAIN_SYMBOL≠[] &&
    run mem (Probe.strcmp E.SMART_CHAIN_SYMBOL (push.opoffset+32*2+4))==some true

/-- A height and a block can be given for the first hash of the push. -/
def VoutEnv.sourceKnown (E : VoutEnv) (mem : Nat → Byte) (push : Push) : Prop :=
  E.IsInitialBlockDownload=true ∨
    ∀srchash,run mem (Probe.word 256 push.opoffset)=some srchash →
      (E.hushGetblockindex srchash).isSome

/-- For a push that is no KV message, a null ends the name in the size of the buffer, and
the node knows the source of a notarization of this chain or is still in its initial
download. -/
def VoutEnv.Returns (E : VoutEnv) (mem : Nat → Byte) (s : List Byte) : Prop :=
  s.getD 0 0=0x6a → (E.SMART_CHAIN_SYMBOL≠[] → mem (pushOf s).opoffset≠0x4b) →
    (∃k<DRAGON_MAXSCRIPTSIZE,
      mem ((pushOf s).opoffset+nameOffset (E.matchedAt mem (pushOf s))+k)=0) ∧
    (E.matchedAt mem (pushOf s)=true → (pushOf s).opretlen≥nameOffset true →
      E.sourceKnown mem (pushOf s))

/-- A result without a fault and without a crash. -/
def Ok (mem : Nat → Byte) (p : Probe (Option VoutResult)) : Prop := ∃r,run mem p=some (some r)

theorem ok_bind {p : Probe α} {f : α → Probe (Option VoutResult)} {x : α}
    (hx : run mem p=some x) : Ok mem (p>>=f) ↔ Ok mem (f x) := by
  rw [Ok,Ok,Probe.run_bind,hx]
  rfl

theorem ok_of_isSome {p : Probe VoutResult} (h : (run mem p).isSome) :
    Ok mem (do let r ← p; return some r) := by
  obtain ⟨r,hr⟩ := Option.isSome_iff_exists.mp h
  exact (ok_bind hr).mpr ⟨r,rfl⟩

theorem hushValidateChain_isSome (srchash : Uint256) (notarized_height : Int32) :
    (E.hushValidateChain srchash notarized_height).isSome ↔
      E.IsInitialBlockDownload=true ∨ (E.hushGetblockindex srchash).isSome := by
  unfold VoutEnv.hushValidateChain
  split_ifs with hibd
  · simp [hibd]
  · simp [hibd]

theorem isSome_desttxidProbe (mem : Nat → Byte) (matched : Bool) (len : Nat) :
    (run mem (desttxidProbe matched len)).isSome := by
  cases matched with
  | false => rfl
  | true => exact isSome_word _ _ _

theorem ok_notarizationProbe (mem : Nat → Byte) (matched : Bool) (name : List Byte)
    (r : VoutResult) :
    Ok mem (E.notarizationProbe a push matched name r) ↔
      (matched=true → E.sourceKnown mem push) := by
  obtain ⟨srchash,hsrc⟩ := Option.isSome_iff_exists.mp (isSome_word mem 256 push.opoffset)
  obtain ⟨notarizedheight,hheight⟩ :=
    Option.isSome_iff_exists.mp (isSome_word mem 32 (push.opoffset+32))
  obtain ⟨desttxid,hdest⟩ :=
    Option.isSome_iff_exists.mp (isSome_desttxidProbe mem matched (push.opoffset+36))
  have hknown : E.sourceKnown mem push ↔
      (E.hushValidateChain srchash notarizedheight).isSome := by
    rw [hushValidateChain_isSome,VoutEnv.sourceKnown,hsrc]
    simp
  rw [VoutEnv.notarizationProbe,ok_bind hsrc,ok_bind hheight,ok_bind hdest,hknown]
  cases hvalid : E.validated matched srchash notarizedheight with
  | none =>
    have hmatched : matched=true := by
      by_contra hnot
      rw [VoutEnv.validated,if_neg hnot] at hvalid
      cases hvalid
    rw [VoutEnv.validated,if_pos hmatched] at hvalid
    rw [hvalid]
    refine iff_of_false ?_ (fun h => absurd (h hmatched) (by decide))
    rintro ⟨r',hr'⟩
    cases hr'
  | some validated =>
    refine iff_of_true ?_ ?_
    · dsimp only
      by_cases hcheck : (a.fJustCheck && matched)=true
      · rw [if_pos hcheck]
        exact ⟨_,rfl⟩
      rw [if_neg hcheck]
      by_cases hreach : (a.isNotarized matched (name.take 65) && validated)=true
      · obtain ⟨mom,hmom⟩ := Option.isSome_iff_exists.mp (isSome_MoMProbe mem E a push
          (push.opoffset+nameOffset matched+(name.length+1)) (name.take 65) notarizedheight)
        rw [if_pos hreach]
        exact (ok_bind hmom).mpr ⟨_,rfl⟩
      · rw [if_neg hreach]
        exact ⟨_,rfl⟩
    · intro hmatched
      rw [VoutEnv.validated,if_pos hmatched] at hvalid
      rw [hvalid]
      rfl

theorem ok_nameProbe (mem : Nat → Byte) (matched : Bool) (r : VoutResult) (hi : a.i≠0)
    (hj : a.j=1) :
    Ok mem (E.nameProbe a push matched r) ↔
      (∃k<DRAGON_MAXSCRIPTSIZE,mem (push.opoffset+nameOffset matched+k)=0) ∧
        (matched=true → push.opretlen≥nameOffset true → E.sourceKnown mem push) := by
  have hspan := isSome_span_iff mem (·==0) DRAGON_MAXSCRIPTSIZE
    (push.opoffset+nameOffset matched)
  simp only [beq_iff_eq] at hspan
  rw [←hspan,VoutEnv.nameProbe]
  cases hlen : run mem (Probe.span (·==0) DRAGON_MAXSCRIPTSIZE
      (push.opoffset+nameOffset matched)) with
  | none =>
    refine iff_of_false ?_ (fun h => absurd h.1 (by decide))
    rintro ⟨r',hr'⟩
    rw [Probe.run_bind,hlen] at hr'
    cases hr'
  | some namelen =>
    obtain ⟨name,hname⟩ := Option.isSome_iff_exists.mp
      (isSome_bytes mem (push.opoffset+nameOffset matched) namelen)
    rw [ok_bind hlen,ok_bind hname,
      and_iff_right (show (some namelen).isSome=true from rfl)]
    by_cases hlong : push.opretlen≥nameOffset matched
    · rw [if_pos ⟨hj,hlong⟩,ok_notarizationProbe]
      refine forall_congr' fun hmatched => ?_
      subst hmatched
      exact ⟨fun h _ => h,fun h => h hlong⟩
    · rw [if_neg (fun h => hlong h.2),if_neg (fun h => hi h.2.1)]
      cases matched with
      | false => exact iff_of_true ⟨_,rfl⟩ (fun h => absurd h Bool.false_ne_true)
      | true =>
        exact iff_of_true (ok_of_isSome (isSome_namedProbe mem hlong r))
          (fun _ h => absurd h hlong)

/-- When the check of a notarization returns. -/
theorem ok_hushVoutupdate {s : List Byte} {stale : Nat → Byte} (hmin : 4 ≤ s.length)
    (timestamp : BitVec 32) (height : Int32) (vars : VoutVars) :
    Ok (overlay s stale) (hushVoutupdate E (checkArgs timestamp height) s.length 0 vars) ↔
      E.Returns (overlay s stale) s := by
  obtain ⟨-,r,hr,-⟩ := pubkeyProbe_spec E (checkArgs timestamp height) s stale 0 vars
  have hbyte : overlay s stale 0=s.getD 0 0 := by
    simp [overlay,List.getElem?_eq_getElem (show 0<s.length by omega)]
  rw [hushVoutupdate,ok_bind hr,ok_bind (Probe.run_byte 0),hbyte,VoutEnv.Returns]
  by_cases hop : s.getD 0 0=0x6a
  · rw [if_pos hop,ok_bind (pushProbe_spec stale hmin).2,VoutEnv.opreturnProbe,
      VoutEnv.matchedAt]
    simp only [hop,true_implies]
    by_cases hsym : E.SMART_CHAIN_SYMBOL=[]
    · rw [if_pos hsym,ok_nameProbe _ _ _ Nat.one_ne_zero rfl]
      simp [hsym]
    · rw [if_neg hsym,ok_bind (Probe.run_byte _)]
      by_cases hkv : overlay s stale (pushOf s).opoffset=0x4b
      · obtain ⟨opretbuf,hbuf⟩ := Option.isSome_iff_exists.mp
          (isSome_bytes (overlay s stale) (pushOf s).opoffset (pushOf s).opretlen)
        rw [if_pos hkv,ok_bind hbuf]
        exact iff_of_true ⟨_,rfl⟩ (fun h => absurd hkv (h hsym))
      · obtain ⟨matched,hmatched⟩ := Option.isSome_iff_exists.mp
          (isSome_strcmp (overlay s stale) E.SMART_CHAIN_SYMBOL ((pushOf s).opoffset+32*2+4))
        rw [if_neg hkv,ok_bind hmatched,ok_nameProbe _ _ _ Nat.one_ne_zero rfl,hmatched]
        have hat : (decide (E.SMART_CHAIN_SYMBOL≠[]) && some matched==some true)=matched := by
          simp [hsym]
        rw [hat]
        exact ⟨fun h _ => h,fun h => h fun _ => hkv⟩
  · rw [if_neg hop]
    exact iff_of_true ⟨_,rfl⟩ (fun h => absurd h hop)

end Parser

section Check

variable {c : PayChain} {u : PayLocals} {pblock : PayBlock} {height : Int32}

/-- The inputs up to the first one that is not found spend outputs that are there. -/
def PayChain.prevoutsInside (c : PayChain) : List CTxIn → Prop
  | [] => True
  | txin::vin => ∀tx1,c.getTransaction txin.prevout.hash=some tx1 →
      txin.prevout.n.toNat<tx1.vout.length ∧ c.prevoutsInside vin

/-- A script that the parser takes at all does not make it fault. -/
def PayChain.scriptReturns (c : PayChain) (u : PayLocals) (script : List Byte) : Prop :=
  4 ≤ script.length ∧ script.length≤DRAGON_MAXSCRIPTSIZE →
    c.parser.Returns (Probe.overlay script u.scriptbuf) script

theorem hushGetnotarizedheight_ok_iff {timestamp : BitVec 32} {script : List Byte} :
    (∃n,c.hushGetnotarizedheight u timestamp height script=.ok n) ↔
      c.scriptReturns u script := by
  unfold PayChain.hushGetnotarizedheight PayChain.scriptReturns
  by_cases hlen : 4 ≤ script.length ∧ script.length≤DRAGON_MAXSCRIPTSIZE
  · rw [if_pos hlen,←ok_hushVoutupdate hlen.1 timestamp height u.vars,Ok]
    simp only [hlen]
    cases hrun : Probe.run (Probe.overlay script u.scriptbuf) (hushVoutupdate c.parser
        (checkArgs timestamp height) script.length 0 u.vars) with
    | none => simp
    | some outcome =>
      cases outcome with
      | none => simp
      | some r => simp
  · rw [if_neg hlen]
    exact iff_of_true ⟨0,rfl⟩ (fun h => absurd h hlen)

theorem gatherNotaries_ok_iff {notarypubkeys : List (List Byte)} {vin : List CTxIn} :
    (∃notaries,c.gatherNotaries notarypubkeys vin=.ok notaries) ↔ c.prevoutsInside vin := by
  induction vin with
  | nil => exact iff_of_true ⟨_,rfl⟩ trivial
  | cons txin vin ih =>
    rw [PayChain.gatherNotaries,PayChain.prevoutsInside]
    cases htx : c.getTransaction txin.prevout.hash with
    | none => exact iff_of_true ⟨_,rfl⟩ (fun tx1 h => by cases h)
    | some tx1 =>
      simp only [Option.some.injEq,forall_eq']
      rw [←ih]
      cases hout : tx1.vout[txin.prevout.n.toNat]? with
      | none =>
        rw [List.getElem?_eq_none_iff] at hout
        refine iff_of_false ?_ (fun h => by omega)
        rintro ⟨notaries,h⟩
        cases h
      | some out =>
        rw [and_iff_right (List.getElem?_eq_some_iff.mp hout).1]
        cases hrest : c.gatherNotaries notarypubkeys vin with
        | error e =>
          refine iff_of_false ?_ ?_ <;> rintro ⟨notaries,h⟩ <;> cases h
        | ok rest => exact iff_of_true ⟨_,rfl⟩ ⟨_,rfl⟩

/-- The outputs that the signers spend are there; when the signers are found and differ, the
script of the notarization is not empty and the parser returns for an OP_RETURN. -/
structure Readable (c : PayChain) (u : PayLocals) (pblock : PayBlock) (height : Int32) :
    Prop where
  prevouts : noNotaries (c.hushNotaries height pblock.nTime)=false →
    c.prevoutsInside pblock.notarization.vin
  script : ∀notaries script,c.getNotarizationNotaries (c.hushNotaries height pblock.nTime)
      pblock.notarization.vin=.ok (some notaries) → notaries.Nodup →
    notarizationScript pblock.notarization=some script →
      script≠[] ∧ (script.head?=some 0x6a → c.scriptReturns u script)

theorem getNotarizationNotaries_ok_iff {notarypubkeys : List (List Byte)} {vin : List CTxIn} :
    (∃notaries,c.getNotarizationNotaries notarypubkeys vin=.ok notaries) ↔
      (noNotaries notarypubkeys=false → c.prevoutsInside vin) := by
  unfold PayChain.getNotarizationNotaries
  cases hkeys : noNotaries notarypubkeys with
  | true => exact iff_of_true ⟨_,rfl⟩ (fun h => by cases h)
  | false => simpa using gatherNotaries_ok_iff

/-- The payment is built when the parser returns. -/
theorem hushNotarypay_ok_iff {vout : List CTxOut} {notaries : List Nat}
    {timestamp : BitVec 32} {script : List Byte}
    (hkeys : noNotaries (c.hushNotaries height timestamp)=false) :
    (∃paid,c.hushNotarypay u vout notaries timestamp height script=.ok paid) ↔
      c.scriptReturns u script := by
  have hiff : (∃n,c.hushGetnotarizedheight u timestamp height script=.ok n) ↔
      c.scriptReturns u script := hushGetnotarizedheight_ok_iff
  rw [←hiff,PayChain.hushNotarypay]
  dsimp only
  rw [hkeys,if_neg Bool.false_ne_true]
  cases hheight : c.hushGetnotarizedheight u timestamp height script with
  | error e => exact iff_of_false (by rintro ⟨paid,h⟩; cases h) (by rintro ⟨n,h⟩; cases h)
  | ok n =>
    refine iff_of_true ?_ ⟨n,rfl⟩
    change ∃paid,(if n=0 then _ else _)=Except.ok paid
    split_ifs
    · exact ⟨_,rfl⟩
    · exact ⟨_,rfl⟩
    · exact ⟨_,rfl⟩

/-- What the check reads in front of its loop is there exactly when it gets to the loop or
returns 0. -/
theorem rebuild_ok_iff :
    (∃rebuilt,c.rebuild u pblock height=.ok rebuilt) ↔ Readable c u pblock height := by
  cases hgather : c.getNotarizationNotaries (c.hushNotaries height pblock.nTime)
      pblock.notarization.vin with
  | error e =>
    refine iff_of_false ?_ fun h => ?_
    · rintro ⟨rebuilt,hrebuilt⟩
      rw [PayChain.rebuild,hgather] at hrebuilt
      cases hrebuilt
    · obtain ⟨notaries,hok⟩ := getNotarizationNotaries_ok_iff.mpr h.prevouts
      rw [hgather] at hok
      cases hok
  | ok gathered =>
    have hprevouts := getNotarizationNotaries_ok_iff.mp ⟨gathered,hgather⟩
    have hreadable : Readable c u pblock height ↔ ∀notaries script,gathered=some notaries →
        notaries.Nodup → notarizationScript pblock.notarization=some script →
          script≠[] ∧ (script.head?=some 0x6a → c.scriptReturns u script) := by
      constructor
      · intro h notaries script heq
        exact h.script notaries script (by rw [hgather,heq])
      · intro h
        refine ⟨hprevouts,fun notaries script heq => ?_⟩
        rw [hgather] at heq
        exact h notaries script (Except.ok.inj heq)
    rw [hreadable,PayChain.rebuild,hgather]
    cases gathered with
    | none => exact iff_of_true ⟨none,rfl⟩ (fun notaries script h => by cases h)
    | some notaries =>
      have hkeys : noNotaries (c.hushNotaries height pblock.nTime)=false := by
        by_contra hnone
        rw [Bool.not_eq_false] at hnone
        rw [PayChain.getNotarizationNotaries,hnone] at hgather
        cases hgather
      change (∃rebuilt,(if ¬notaries.Nodup then _ else _)=Except.ok rebuilt) ↔ _
      by_cases hnodup : notaries.Nodup
      · rw [if_neg (not_not_intro hnodup)]
        cases hscript : notarizationScript pblock.notarization with
        | none => exact iff_of_true ⟨none,rfl⟩ (fun _ script _ _ h => by cases h)
        | some script =>
          have hcases : (∀notaries' script',some notaries=some notaries' → notaries'.Nodup →
              some script=some script' → script'≠[] ∧ (script'.head?=some 0x6a →
                c.scriptReturns u script')) ↔
              script≠[] ∧ (script.head?=some 0x6a → c.scriptReturns u script) := by
            constructor
            · intro h
              exact h notaries script rfl hnodup rfl
            · rintro h _ script' - - heq
              rw [←Option.some.inj heq]
              exact h
          rw [hcases]
          cases script with
          | nil =>
            refine iff_of_false ?_ (fun h => h.1 rfl)
            rintro ⟨rebuilt,h⟩
            cases h
          | cons op script =>
            simp only [ne_eq,List.cons_ne_nil,not_false_eq_true,true_and,List.head?_cons,
              Option.some.injEq]
            by_cases hop : op=0x6a
            · rw [if_pos hop]
              simp only [hop,true_implies]
              have hpaid : (∃paid,c.hushNotarypay u [] notaries pblock.nTime height
                  (0x6a::script)=.ok paid) ↔ c.scriptReturns u (0x6a::script) :=
                hushNotarypay_ok_iff hkeys
              rw [←hpaid]
              cases hpay : c.hushNotarypay u [] notaries pblock.nTime height
                  (0x6a::script) with
              | error e =>
                refine iff_of_false ?_ ?_ <;> rintro ⟨x,h⟩ <;> cases h
              | ok result =>
                refine iff_of_true ?_ ⟨_,rfl⟩
                obtain ⟨totalsats,vout⟩ := result
                change ∃rebuilt,(if totalsats=0 then _ else _)=Except.ok rebuilt
                split_ifs
                · exact ⟨_,rfl⟩
                · exact ⟨_,rfl⟩
            · rw [if_neg hop]
              exact iff_of_true ⟨none,rfl⟩ (fun h => absurd h hop)
      · rw [if_pos hnodup]
        refine iff_of_true ⟨none,rfl⟩ fun notaries' script heq hnodup' => ?_
        rw [Option.some.inj heq] at hnodup
        exact absurd hnodup' hnodup

/-- The check reads nothing that is not there, and what it permits is paid exactly. -/
def ChecksExactly (c : PayChain) (u : PayLocals) (pblock : PayBlock) (height : Int32) : Prop :=
  ∃total,c.hushChecknotarypay u pblock height=.ok total ∧
    (total≠0 → PaysExactly c pblock height total)

/-- What is read in front of the outputs is there, and when the check gets to the outputs,
none behind those of the signers pays to a public key. -/
def SignersCover (c : PayChain) (u : PayLocals) (pblock : PayBlock) (height : Int32) : Prop :=
  Readable c u pblock height ∧ ∀r,c.rebuild u pblock height=.ok (some r) →
    PlainBehind r.NotarizationNotaries pblock.coinbase

theorem checksExactly_of_cover (h : SignersCover c u pblock height) :
    ChecksExactly c u pblock height := by
  obtain ⟨rebuilt,hrebuild⟩ := rebuild_ok_iff.mpr h.1
  cases rebuilt with
  | none =>
    refine ⟨0,?_,fun hne => absurd rfl hne⟩
    rw [PayChain.hushChecknotarypay,hrebuild]
    rfl
  | some r =>
    obtain ⟨hgather,hnodup,hnotaries,hlen,hamount,htotal⟩ := rebuild_some hrebuild
    have hplain := h.2 r hrebuild
    rw [ChecksExactly,hushChecknotarypay_eq hrebuild hplain]
    split_ifs with hcount
    · refine ⟨_,rfl,fun _ => ?_⟩
      refine ⟨r.NotarizationNotaries,hgather,hnodup,hnotaries,fun q hq hle => ?_,?_⟩
      · obtain ⟨out,hout,hpaid⟩ := paidAt_of_countPaid hplain _ rfl
          (hcount.trans (Nat.add_sub_cancel _ 1).symm) hq hle
        rw [hout,eq_payTo_of_paidAt hpaid,hamount]
      · rw [htotal,hamount,toNat_hushNotarypayamount_mul c height hlen]
    · exact ⟨0,rfl,fun hne => absurd rfl hne⟩

theorem cover_of_checksExactly (hlen : pblock.coinbase.length≤256)
    (h : ChecksExactly c u pblock height) : SignersCover c u pblock height := by
  obtain ⟨total,hcheck,-⟩ := h
  refine ⟨rebuild_ok_iff.mp ?_,fun r hrebuild q out hq hout hpay => ?_⟩
  · cases hrebuild : c.rebuild u pblock height with
    | ok rebuilt => exact ⟨rebuilt,rfl⟩
    | error e =>
      rw [PayChain.hushChecknotarypay,hrebuild] at hcheck
      cases hcheck
  obtain ⟨-,-,hne,-,-,-⟩ := rebuild_some hrebuild
  have hpos : 0 < r.NotarizationNotaries.length := List.length_pos_of_ne_nil hne
  have hlt : q<pblock.coinbase.length := by
    by_contra hge
    rw [List.getElem?_eq_none (by omega)] at hout
    cases hout
  rw [hushChecknotarypay_of_rebuild hrebuild,walkOutputs_first,
    walkOutputs_fault hout hpay hq (by omega) _ le_rfl (by omega) rfl] at hcheck
  cases hcheck

end Check

end Zdeex.Notary
