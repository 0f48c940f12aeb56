import Mathlib.Data.List.TakeWhile
import Zdeex.Framework.Probe
import Zdeex.Kv.Ownership

namespace Zdeex.Kv

open Zdeex.Framework

section Reads

/-- The test for `transfer:` as it reads the bytes, with the strings that are printed. -/
def transferProbe (opretlen valueptr : Nat) : Probe (Option Uint256) := do
  let same ← Probe.strncmp tstr valueptr
  if same then do
    let digits ← Probe.span (fun ch => (unhex ch).isNone) (opretlen+1) (valueptr+9)
    if digits=64 then do
      let _ ← Probe.span (fun ch => ch==0) (opretlen+1) 13
      let _ ← Probe.span (fun ch => ch==0) (opretlen+1) (valueptr+9)
      let transferpubstr ← Probe.bytes (valueptr+9) 64
      return some (ofBytes 256 (decodeHex transferpubstr).reverse)
    else return none
  else return none

/-- A field that is only there when the size says so. -/
def optionalWord (present : Prop) [Decidable present] (i : Nat) : Probe Uint256 :=
  if present then Probe.word 256 i else return 0

def newValueProbe (valueptr valuesize : Nat) (ptr : HushKv) : Probe (List Byte) :=
  if ptr.flags &&& HUSH_KVPROTECTED=0 then Probe.bytes valueptr valuesize else return ptr.value

/-- From the search on. -/
def storeProbe (c : KvChain) (kv : Store) (opretlen keylen valuesize : Nat) (height : Height) :
    Probe Store := do
  let pubkey ← optionalWord (opretlen≥13+keylen+valuesize+32) (13+keylen+valuesize)
  let sig ← optionalWord (opretlen=13+keylen+valuesize+64) (13+keylen+valuesize+32)
  let key ← Probe.bytes 13 keylen
  match hushKvsearch kv height key with
  | (kv,none) => do
      let value ← Probe.bytes (13+keylen) valuesize
      return kv.insert key ⟨pubkey,value,height,0⟩
  | (kv,some ptr) =>
      if ptr.pubkey≠0 ∧ c.hushKvsigverify (key++ptr.value) ptr.pubkey sig<0 then return kv
      else do
        let transferred ← transferProbe opretlen (13+keylen)
        let value ← newValueProbe (13+keylen) valuesize ptr
        return kv.insert key ⟨transferred.getD pubkey,value,height,ptr.flags⟩

/-- Behind the fee; the division by zero is a fault. -/
def paidProbe (c : KvChain) (kv : Store) (opretlen keylen valuesize : Nat) (height : Height)
    (value : BitVec 64) : Option (BitVec 64) → Probe Store
  | none => Probe.fault
  | some fee =>
      if value.toNat≥fee.toNat ∧ (opretlen=13+keylen+valuesize ∨
          opretlen=13+keylen+valuesize+32 ∨ opretlen=13+keylen+valuesize+64) then
        storeProbe c kv opretlen keylen valuesize height
      else return kv

/-- `hush_kvupdate` as it reads its argument. -/
def kvupdateProbe (c : KvChain) (kv : Store) (opretlen : Nat) (value : BitVec 64) :
    Probe Store :=
  if c.SMART_CHAIN_SYMBOL="" then return kv
  else do
    let keylen ← Probe.word 16 1
    let valuesize ← Probe.word 16 3
    let height ← Probe.word 32 5
    let flags ← Probe.word 32 9
    if keylen.toNat+13>opretlen then return kv
    else
      paidProbe c kv opretlen keylen.toNat valuesize.toNat height value
        (hushKvfee flags opretlen keylen.toNat)

end Reads

section Condition

variable (opretbuf : List Byte)

/-- The test for `transfer:` and what follows it end inside the message. -/
def TransferEnds : Prop :=
  (¬∃t≠[],valueptr opretbuf++t=tstr) ∧
    (tstr<+:valueptr opretbuf →
      (∃ch∈(valueptr opretbuf).drop 9,(unhex ch).isNone) ∧
        (isHexstr ((valueptr opretbuf).drop 9)=64 → 0∈(valueptr opretbuf).drop 9))

/-- The message has its header; a key that fits is not empty; and where the key has a
live entry whose owner signed, the test for `transfer:` ends inside. -/
def MessageHolds (c : KvChain) (kv : Store) (value : BitVec 64) : Prop :=
  c.SMART_CHAIN_SYMBOL="" ∨ 13≤opretbuf.length ∧ (keylen opretbuf+13>opretbuf.length ∨
    keylen opretbuf≠0 ∧ ∀fee ptr,
      hushKvfee (messageFlags opretbuf) opretbuf.length (keylen opretbuf)=some fee →
      value.toNat≥fee.toNat → sizeFits opretbuf →
      (hushKvsearch kv (messageHeight opretbuf) (messageKey opretbuf)).2=some ptr →
      ¬refused c opretbuf (some ptr) → TransferEnds opretbuf)

end Condition

section Safety

open Probe

variable {c : KvChain} {kv : Store} {opretbuf : List Byte} {stale : Nat → Byte}
  {value : BitVec 64}

theorem run_field {w p : Nat} (h : p+w/8≤opretbuf.length) :
    run (overlay opretbuf stale) (word w p)=some (wordAt opretbuf w p) := run_word_overlay h

/-- Digits that the count finds before it stops in the message. -/
theorem run_digits {i : Nat} (h : Safe opretbuf.length (overlay opretbuf stale)
    (span (fun ch => (unhex ch).isNone) (opretbuf.length+1) i)) :
    run (overlay opretbuf stale) (span (fun ch => (unhex ch).isNone) (opretbuf.length+1) i)=
      some (isHexstr (opretbuf.drop i)) := by
  rw [run_span h,isHexstr]
  simp only [Option.not_isNone]

theorem run_terminated (stale : Nat → Byte) {i : Nat} (h : 0∈opretbuf.drop i) :
    run (overlay opretbuf stale) (span (fun ch => ch==0) (opretbuf.length+1) i)=
      some ((opretbuf.drop i).takeWhile fun ch => !(ch==0)).length :=
  run_span ((safe_span stale _ (by omega)).mpr ⟨0,h,rfl⟩)

/-- Sixty-four digits in front of a null make the printed strings and the key end inside. -/
theorem transfer_fits (h64 : isHexstr (opretbuf.drop (13+keylen opretbuf+9))=64)
    (hzero : 0∈opretbuf.drop (13+keylen opretbuf+9)) :
    0∈opretbuf.drop 13 ∧ 13+keylen opretbuf+9+64≤opretbuf.length := by
  have hsub : opretbuf.drop (13+keylen opretbuf+9)=
      (opretbuf.drop 13).drop (keylen opretbuf+9) := by
    rw [List.drop_drop]
    congr 1
  have hlong : 64≤(opretbuf.drop (13+keylen opretbuf+9)).length := by
    rw [←h64]
    exact (List.takeWhile_prefix _).length_le
  rw [List.length_drop] at hlong
  rw [hsub] at hzero
  exact ⟨List.mem_of_mem_drop hzero,by omega⟩

theorem safe_transferProbe :
    Safe opretbuf.length (overlay opretbuf stale)
        (transferProbe opretbuf.length (13+keylen opretbuf)) ↔ TransferEnds opretbuf := by
  have hdrop : (valueptr opretbuf).drop 9=opretbuf.drop (13+keylen opretbuf+9) := by
    rw [valueptr,List.drop_drop]
  rw [TransferEnds,hdrop,transferProbe]
  by_cases hcmp : Safe opretbuf.length (overlay opretbuf stale)
      (strncmp tstr (13+keylen opretbuf))
  · have hcmp' := (safe_strncmp stale tstr (13+keylen opretbuf)).mp hcmp
    rw [safe_bind_of_run (run_strncmp hcmp)]
    by_cases hstr : tstr<+:opretbuf.drop (13+keylen opretbuf)
    · simp only [hcmp,hstr,decide_true,if_true,true_and]
      rw [safe_bind,safe_span stale _ (by omega)]
      constructor
      · rintro ⟨hstop,hnext⟩
        refine ⟨hcmp',fun _ => ⟨hstop,fun hdigits => ?_⟩⟩
        have hrun := run_digits ((safe_span stale _ (by omega)).mpr hstop)
        have hprint := hnext _ hrun
        rw [if_pos hdigits,safe_bind] at hprint
        obtain ⟨n,hn⟩ := Option.isSome_iff_exists.mp hprint.1.isSome
        have hrest := hprint.2 n hn
        rw [safe_bind,safe_span stale _ (by omega)] at hrest
        simpa using hrest.1
      · rintro ⟨-,hends⟩
        obtain ⟨hstop,hnull⟩ := hends hstr
        refine ⟨hstop,fun digits hdigits => ?_⟩
        have hrun := run_digits ((safe_span stale _ (by omega)).mpr hstop)
        obtain rfl := Option.some.inj (hrun.symm.trans hdigits)
        by_cases h64 : isHexstr (opretbuf.drop (13+keylen opretbuf+9))=64
        · have hzero := hnull h64
          obtain ⟨hzero',hlong⟩ := transfer_fits h64 hzero
          rw [if_pos h64,safe_bind,safe_span stale _ (by omega)]
          refine ⟨⟨0,hzero',rfl⟩,fun _ _ => ?_⟩
          rw [safe_bind,safe_span stale _ (by omega)]
          refine ⟨⟨0,hzero,rfl⟩,fun _ _ => ?_⟩
          rw [safe_bind,safe_bytes]
          exact ⟨.inr (by omega),fun _ _ => trivial⟩
        · rw [if_neg h64]
          trivial
    · simp only [hcmp,hstr,decide_false,Bool.false_eq_true,if_false,true_and,safe_pure,true_iff]
      exact ⟨hcmp',fun h => absurd h hstr⟩
  · rw [safe_bind]
    have hcmp' := fun h => hcmp ((safe_strncmp stale tstr (13+keylen opretbuf)).mpr h)
    exact ⟨fun h => absurd h.1 hcmp,fun h => absurd h.1 hcmp'⟩

theorem isHexstr_append {l : List Byte} (h : ∃ch∈l,(unhex ch).isNone) (beyond : List Byte) :
    isHexstr (l++beyond)=isHexstr l := by
  have hne : (l.takeWhile fun ch => (unhex ch).isSome).length≠l.length := by
    intro hlen
    obtain ⟨ch,hch,hstop⟩ := h
    rw [←(List.takeWhile_prefix _).eq_of_length hlen] at hch
    have hdigit := List.mem_takeWhile_imp hch
    rw [Option.isNone_iff_eq_none.mp hstop] at hdigit
    cases hdigit
  rw [isHexstr,List.takeWhile_append,if_neg hne,isHexstr]

/-- Behind a message that does not end in the middle of the word, nothing makes it. -/
theorem take_append_eq_tstr {v : List Byte} (h : ¬∃t≠[],v++t=tstr) (beyond : List Byte) :
    (v++beyond).take 9=tstr ↔ tstr<+:v := by
  have htstr : tstr.length=9 := rfl
  constructor
  · intro htake
    by_cases hlen : 9≤v.length
    · rw [List.take_append_of_le_length hlen] at htake
      rw [←htake]
      exact List.take_prefix 9 v
    · rw [List.take_append,List.take_of_length_le (by omega)] at htake
      refine absurd ⟨beyond.take (9-v.length),?_,htake⟩ h
      intro hnil
      rw [hnil,List.append_nil] at htake
      rw [htake] at hlen
      exact hlen htstr.ge
  · rintro ⟨r,rfl⟩
    rw [List.append_assoc,←htstr]
    exact List.take_left

/-- The key that the test finds when it stays in the message. -/
theorem run_transferProbe (h : TransferEnds opretbuf) (beyond : List Byte) :
    run (overlay opretbuf stale) (transferProbe opretbuf.length (13+keylen opretbuf))=
      some (transferPubkey (valueptr opretbuf++beyond)) := by
  have hdrop : (valueptr opretbuf).drop 9=opretbuf.drop (13+keylen opretbuf+9) := by
    rw [valueptr,List.drop_drop]
  have hcmp := (safe_strncmp stale tstr (13+keylen opretbuf)).mpr h.1
  rw [transferProbe,run_bind,run_strncmp hcmp,Option.bind_some,transferPubkey]
  simp only [take_append_eq_tstr h.1]
  change Probe.run _ (if decide (tstr<+:valueptr opretbuf) then _ else _)=_
  by_cases hstr : tstr<+:valueptr opretbuf
  · obtain ⟨hstop,hnull⟩ := h.2 hstr
    have hlen : 9≤(valueptr opretbuf).length := hstr.length_le
    rw [hdrop] at hstop hnull
    have hdigits := run_digits ((safe_span stale _ (by omega)).mpr hstop)
    rw [List.drop_append_of_le_length hlen,hdrop,isHexstr_append hstop]
    simp only [hstr,decide_true,if_true,true_and]
    rw [run_bind,hdigits,Option.bind_some]
    by_cases h64 : isHexstr (opretbuf.drop (13+keylen opretbuf+9))=64
    · have hzero := hnull h64
      obtain ⟨hzero',hlong⟩ := transfer_fits h64 hzero
      have hkey := run_terminated stale hzero'
      have hstring := run_terminated stale hzero
      rw [if_pos h64,if_pos h64,run_bind,hkey,Option.bind_some,run_bind,hstring,
        Option.bind_some,run_bind,run_bytes_overlay (.inr hlong),Option.bind_some,
        List.take_append_of_le_length (by rw [List.length_drop]; omega)]
      rfl
    · rw [if_neg h64,if_neg h64]
      rfl
  · simp only [hstr,decide_false,Bool.false_eq_true,if_false,false_and]
    rfl

theorem run_optionalWord {present : Prop} [Decidable present] {i : Nat}
    (hpresent : present → i+32≤opretbuf.length) :
    run (overlay opretbuf stale) (optionalWord present i)=
      some (if present then wordAt opretbuf 256 i else 0) := by
  unfold optionalWord
  split_ifs with h
  · exact run_field (hpresent h)
  · rfl

theorem safe_optionalWord {present : Prop} [Decidable present] {i : Nat}
    (hpresent : present → i+32≤opretbuf.length) :
    Safe opretbuf.length (overlay opretbuf stale) (optionalWord present i) := by
  unfold optionalWord
  split_ifs with h
  · exact (safe_word (by decide) i).mpr (hpresent h)
  · trivial

theorem coresize_le (hfits : sizeFits opretbuf) : coresize opretbuf ≤ opretbuf.length := by
  rcases hfits with h | h | h <;> omega

/-- The value that an update stores, and whether it is read inside the message. -/
theorem newValueProbe_spec (stale : Nat → Byte) (hfits : sizeFits opretbuf) (ptr : HushKv) :
    Safe opretbuf.length (overlay opretbuf stale)
        (newValueProbe (13+keylen opretbuf) (valuesize opretbuf) ptr) ∧
      run (overlay opretbuf stale)
        (newValueProbe (13+keylen opretbuf) (valuesize opretbuf) ptr)=
          some (if ptr.flags &&& HUSH_KVPROTECTED=0 then messageValue opretbuf
            else ptr.value) := by
  have hsize := coresize_le hfits
  have hin : 13+keylen opretbuf+valuesize opretbuf ≤ opretbuf.length := hsize
  unfold newValueProbe
  split_ifs
  · exact ⟨(safe_bytes _ _).mpr (.inr hin),run_bytes_overlay (.inr hin)⟩
  · exact ⟨trivial,rfl⟩

/-- What is left to check behind the fields in front of the search. -/
theorem storeProbe_spec (c : KvChain) (kv : Store) (stale : Nat → Byte)
    (hfits : sizeFits opretbuf) (call : KvCall) (hcall : call.opretbuf=opretbuf) :
    (Safe opretbuf.length (overlay opretbuf stale) (storeProbe c kv opretbuf.length
        (keylen opretbuf) (valuesize opretbuf) (messageHeight opretbuf)) ↔
      ∀ptr,(hushKvsearch kv (messageHeight opretbuf) (messageKey opretbuf)).2=some ptr →
        ¬refused c opretbuf (some ptr) → TransferEnds opretbuf) ∧
    (Safe opretbuf.length (overlay opretbuf stale) (storeProbe c kv opretbuf.length
        (keylen opretbuf) (valuesize opretbuf) (messageHeight opretbuf)) →
      run (overlay opretbuf stale) (storeProbe c kv opretbuf.length (keylen opretbuf)
        (valuesize opretbuf) (messageHeight opretbuf))=
        some (if refused c opretbuf
            (hushKvsearch kv (messageHeight opretbuf) (messageKey opretbuf)).2 then
          (hushKvsearch kv (messageHeight opretbuf) (messageKey opretbuf)).1
        else (hushKvsearch kv (messageHeight opretbuf) (messageKey opretbuf)).1.insert
          (messageKey opretbuf) (call.written
            (hushKvsearch kv (messageHeight opretbuf) (messageKey opretbuf)).2))) := by
  subst hcall
  have hin : 13+keylen call.opretbuf+valuesize call.opretbuf ≤ call.opretbuf.length :=
    coresize_le hfits
  have hpub := fun h : call.opretbuf.length≥13+keylen call.opretbuf+
    valuesize call.opretbuf+32 => h
  have hsig : call.opretbuf.length=13+keylen call.opretbuf+valuesize call.opretbuf+64 →
      13+keylen call.opretbuf+valuesize call.opretbuf+32+32 ≤ call.opretbuf.length := by omega
  have hpubrun : run (overlay call.opretbuf stale) (optionalWord (call.opretbuf.length≥
      13+keylen call.opretbuf+valuesize call.opretbuf+32)
        (13+keylen call.opretbuf+valuesize call.opretbuf))=
      some (messagePubkey call.opretbuf) := run_optionalWord hpub
  have hsigrun : run (overlay call.opretbuf stale) (optionalWord (call.opretbuf.length=
      13+keylen call.opretbuf+valuesize call.opretbuf+64)
        (13+keylen call.opretbuf+valuesize call.opretbuf+32))=
      some (messageSig call.opretbuf) := run_optionalWord hsig
  have hkey : run (overlay call.opretbuf stale) (bytes 13 (keylen call.opretbuf))=
      some (messageKey call.opretbuf) := run_bytes_overlay (.inr (by omega))
  have hkeysafe : Safe call.opretbuf.length (overlay call.opretbuf stale)
      (bytes 13 (keylen call.opretbuf)) := (safe_bytes _ _).mpr (.inr (by omega))
  have hvalue : run (overlay call.opretbuf stale)
      (bytes (13+keylen call.opretbuf) (valuesize call.opretbuf))=
        some (messageValue call.opretbuf) := run_bytes_overlay (.inr hin)
  have hvaluesafe : Safe call.opretbuf.length (overlay call.opretbuf stale)
      (bytes (13+keylen call.opretbuf) (valuesize call.opretbuf)) :=
    (safe_bytes _ _).mpr (.inr hin)
  unfold storeProbe
  rw [safe_bind_of_run hpubrun,safe_bind_of_run hsigrun,safe_bind_of_run hkey,run_bind,hpubrun,
    Option.bind_some,run_bind,hsigrun,Option.bind_some,run_bind,hkey,Option.bind_some]
  simp only [safe_optionalWord hpub,safe_optionalWord hsig,hkeysafe,true_and]
  rcases hushKvsearch kv (messageHeight call.opretbuf) (messageKey call.opretbuf) with
    ⟨kv',_ | ptr⟩
  · dsimp only
    rw [safe_bind_of_run hvalue,run_bind,hvalue,Option.bind_some]
    simp only [hvaluesafe,safe_pure,and_true,true_iff,true_implies]
    refine ⟨fun ptr hptr => (by cases hptr),?_⟩
    rw [if_neg (by exact id)]
    rfl
  · dsimp only
    obtain ⟨hnewsafe,hnew⟩ := newValueProbe_spec stale hfits ptr
    by_cases hrefused : refused c call.opretbuf (some ptr)
    · have hcond : ptr.pubkey≠0 ∧ c.hushKvsigverify (messageKey call.opretbuf++ptr.value)
          ptr.pubkey (messageSig call.opretbuf)<0 := hrefused
      rw [if_pos hcond,if_pos hrefused]
      simp only [safe_pure,true_iff,true_implies]
      refine ⟨fun ptr' hptr hnot => ?_,rfl⟩
      obtain rfl := Option.some.inj hptr
      exact absurd hrefused hnot
    · have hcond : ¬(ptr.pubkey≠0 ∧ c.hushKvsigverify (messageKey call.opretbuf++ptr.value)
          ptr.pubkey (messageSig call.opretbuf)<0) := hrefused
      rw [if_neg hcond,if_neg hrefused]
      have hiff : Safe call.opretbuf.length (overlay call.opretbuf stale) (do
          let transferred ← transferProbe call.opretbuf.length (13+keylen call.opretbuf)
          let value ← newValueProbe (13+keylen call.opretbuf) (valuesize call.opretbuf) ptr
          return kv'.insert (messageKey call.opretbuf)
            ⟨transferred.getD (messagePubkey call.opretbuf),value,messageHeight call.opretbuf,
              ptr.flags⟩) ↔ TransferEnds call.opretbuf := by
        rw [safe_bind,safe_transferProbe]
        refine ⟨And.left,fun h => ⟨h,fun a _ => ?_⟩⟩
        rw [safe_bind]
        exact ⟨hnewsafe,fun _ _ => trivial⟩
      rw [hiff]
      constructor
      · constructor
        · intro h ptr' hptr hnot
          exact h
        · intro h
          exact h ptr rfl hrefused
      · intro h
        rw [run_bind,run_transferProbe h call.beyond,Option.bind_some,run_bind,hnew]
        rfl

theorem hushKvfee_eq_none (flags : BitVec 32) (opretlen keylen : Nat) :
    hushKvfee flags opretlen keylen=none ↔ keylen=0 := by
  unfold hushKvfee
  dsimp only
  constructor
  · intro h
    split_ifs at h with hlong hzero hzero
    · cases hzero
    · exact hzero
  · rintro rfl
    rfl

/-- The header is read before any length is looked at. -/
theorem header_spec {α : Type} (f : BitVec 16 → BitVec 16 → BitVec 32 → BitVec 32 → Probe α) :
    (Safe opretbuf.length (overlay opretbuf stale) (do
      let keylen ← word 16 1
      let valuesize ← word 16 3
      let height ← word 32 5
      let flags ← word 32 9
      f keylen valuesize height flags) ↔ 13≤opretbuf.length ∧
        Safe opretbuf.length (overlay opretbuf stale) (f (wordAt opretbuf 16 1)
          (wordAt opretbuf 16 3) (messageHeight opretbuf) (messageFlags opretbuf))) ∧
    (13≤opretbuf.length → run (overlay opretbuf stale) (do
      let keylen ← word 16 1
      let valuesize ← word 16 3
      let height ← word 32 5
      let flags ← word 32 9
      f keylen valuesize height flags)=run (overlay opretbuf stale) (f (wordAt opretbuf 16 1)
        (wordAt opretbuf 16 3) (messageHeight opretbuf) (messageFlags opretbuf))) := by
  by_cases hlen : 13≤opretbuf.length
  · have hkeylen : run (overlay opretbuf stale) (word 16 1)=some (wordAt opretbuf 16 1) :=
      run_field (by omega)
    have hvaluesize : run (overlay opretbuf stale) (word 16 3)=some (wordAt opretbuf 16 3) :=
      run_field (by omega)
    have hheight : run (overlay opretbuf stale) (word 32 5)=some (messageHeight opretbuf) :=
      run_field (by omega)
    have hflags : run (overlay opretbuf stale) (word 32 9)=some (messageFlags opretbuf) :=
      run_field (by omega)
    rw [safe_bind_of_run hkeylen,safe_bind_of_run hvaluesize,safe_bind_of_run hheight,
      safe_bind_of_run hflags,safe_word (by decide),safe_word (by decide),safe_word (by decide),
      safe_word (by decide),run_bind,hkeylen,Option.bind_some,run_bind,hvaluesize,
      Option.bind_some,run_bind,hheight,Option.bind_some,run_bind,hflags,Option.bind_some]
    exact ⟨⟨fun h => ⟨hlen,h.2.2.2.2⟩,fun h => ⟨by omega,by omega,by omega,by omega,h.2⟩⟩,
      fun _ => rfl⟩
  · refine ⟨⟨fun h => ?_,fun h => absurd h.1 hlen⟩,fun h => absurd h hlen⟩
    rw [safe_bind_of_run (run_word 16 1),safe_bind_of_run (run_word 16 3),
      safe_bind_of_run (run_word 32 5),safe_bind_of_run (run_word 32 9),
      safe_word (by decide) 9] at h
    exact absurd h.2.2.2.1 hlen

/-- The fee is a division by the length of the key. -/
theorem paidProbe_spec (c : KvChain) (kv : Store) (stale : Nat → Byte) (call : KvCall)
    (hcall : call.opretbuf=opretbuf)
    (hvalue : call.value=value) {o : Option (BitVec 64)}
    (hfee : hushKvfee (messageFlags opretbuf) opretbuf.length (keylen opretbuf)=o) :
    (Safe opretbuf.length (overlay opretbuf stale) (paidProbe c kv opretbuf.length
        (keylen opretbuf) (valuesize opretbuf) (messageHeight opretbuf) value o) ↔
      keylen opretbuf≠0 ∧ ∀fee ptr,o=some fee → value.toNat≥fee.toNat → sizeFits opretbuf →
        (hushKvsearch kv (messageHeight opretbuf) (messageKey opretbuf)).2=some ptr →
        ¬refused c opretbuf (some ptr) → TransferEnds opretbuf) ∧
    (Safe opretbuf.length (overlay opretbuf stale) (paidProbe c kv opretbuf.length
        (keylen opretbuf) (valuesize opretbuf) (messageHeight opretbuf) value o) →
      run (overlay opretbuf stale) (paidProbe c kv opretbuf.length (keylen opretbuf)
        (valuesize opretbuf) (messageHeight opretbuf) value o)=
          (o.map fun fee => decide (call.value.toNat≥fee.toNat ∧ sizeFits call.opretbuf)).map
            fun reached =>
              if reached then
                let (kv,found) := hushKvsearch kv (messageHeight call.opretbuf)
                  (messageKey call.opretbuf)
                if refused c call.opretbuf found then kv
                else kv.insert (messageKey call.opretbuf) (call.written found)
              else kv) := by
  cases o with
  | none =>
    have hzero := (hushKvfee_eq_none _ _ _).mp hfee
    exact ⟨⟨fun h => h.elim,fun h => absurd hzero h.1⟩,fun h => h.elim⟩
  | some fee =>
    have hpos : keylen opretbuf≠0 := by
      intro hzero
      rw [(hushKvfee_eq_none _ _ _).mpr hzero] at hfee
      cases hfee
    rw [hcall,hvalue]
    change (Safe _ _ (if value.toNat≥fee.toNat ∧ sizeFits opretbuf then _ else _) ↔ _) ∧
      (Safe _ _ (if value.toNat≥fee.toNat ∧ sizeFits opretbuf then _ else _) →
        Probe.run _ (if value.toNat≥fee.toNat ∧ sizeFits opretbuf then _ else _)=_)
    by_cases hpaid : value.toNat≥fee.toNat ∧ sizeFits opretbuf
    · obtain ⟨hsafe,hrun⟩ := storeProbe_spec c kv stale hpaid.2 call hcall
      rw [if_pos hpaid,hsafe]
      refine ⟨?_,fun h => ?_⟩
      · constructor
        · intro h
          refine ⟨hpos,fun _ ptr _ _ _ hptr => h ptr hptr⟩
        · intro h ptr hptr
          exact h.2 fee ptr rfl hpaid.1 hpaid.2 hptr
      · rw [hrun (hsafe.mpr h)]
        simp only [Option.map_some,hpaid,and_self,decide_true,if_true]
    · rw [if_neg hpaid]
      refine ⟨⟨fun _ => ⟨hpos,?_⟩,fun _ => trivial⟩,fun _ => ?_⟩
      · intro fee' ptr hsome hfee' hfits
        obtain rfl := Option.some.inj hsome
        exact absurd ⟨hfee',hfits⟩ hpaid
      · simp only [Option.map_some,hpaid,decide_false,Bool.false_eq_true,if_false]
        rfl

/-- Reads stay inside and nothing divides by zero exactly when the message holds what
it says, and then the update is the one of the table. -/
theorem kvupdateProbe_spec (c : KvChain) (kv : Store) (stale : Nat → Byte) (call : KvCall)
    (hcall : call.opretbuf=opretbuf)
    (hvalue : call.value=value) :
    (Safe opretbuf.length (overlay opretbuf stale)
        (kvupdateProbe c kv opretbuf.length value) ↔ MessageHolds opretbuf c kv value) ∧
    (Safe opretbuf.length (overlay opretbuf stale)
        (kvupdateProbe c kv opretbuf.length value) →
      run (overlay opretbuf stale) (kvupdateProbe c kv opretbuf.length value)=
        hushKvupdate c kv call) := by
  unfold kvupdateProbe MessageHolds hushKvupdate KvCall.reaches
  rw [hcall,hvalue]
  by_cases hsym : c.SMART_CHAIN_SYMBOL=""
  · rw [if_pos hsym,if_pos hsym]
    exact ⟨⟨fun _ => .inl hsym,fun _ => trivial⟩,fun _ => rfl⟩
  rw [if_neg hsym,if_neg hsym,(header_spec _).1]
  by_cases hlen : 13≤opretbuf.length
  · rw [(header_spec _).2 hlen]
    change (13≤opretbuf.length ∧ Safe opretbuf.length (overlay opretbuf stale)
      (if keylen opretbuf+13>opretbuf.length then _ else _) ↔ _) ∧
        (13≤opretbuf.length ∧ Safe opretbuf.length (overlay opretbuf stale)
          (if keylen opretbuf+13>opretbuf.length then _ else _) →
        Probe.run _ (if keylen opretbuf+13>opretbuf.length then _ else _)=_)
    by_cases hshort : keylen opretbuf+13>opretbuf.length
    · rw [if_pos hshort,if_pos hshort]
      exact ⟨⟨fun _ => .inr ⟨hlen,.inl hshort⟩,fun _ => ⟨hlen,trivial⟩⟩,fun _ => rfl⟩
    rw [if_neg hshort,if_neg hshort]
    obtain ⟨hsafe,hrun⟩ := paidProbe_spec c kv stale call hcall hvalue rfl
    rw [hcall,hvalue] at hrun
    refine ⟨⟨fun h => .inr ⟨hlen,.inr (hsafe.mp h.2)⟩,fun h => ⟨hlen,hsafe.mpr ?_⟩⟩,
      fun h => hrun h.2⟩
    rcases h with h | h
    · exact absurd h hsym
    · exact h.2.resolve_left hshort
  · refine ⟨⟨fun h => absurd h.1 hlen,fun h => ?_⟩,fun h => absurd h.1 hlen⟩
    rcases h with h | h
    · exact absurd h hsym
    · exact absurd h.1 hlen

/-- A search that finds an entry leaves the table as it was. -/
theorem hushKvsearch_found (kv : Store) (height : Height) (key : List Byte) (e : HushKv)
    (h : (hushKvsearch kv height key).2=some e) : (hushKvsearch kv height key).1=kv := by
  unfold hushKvsearch at h ⊢
  cases hlookup : kv.lookup key with
  | none => rfl
  | some entry =>
    simp only [hlookup] at h ⊢
    split_ifs at h ⊢ with hexpired
    rfl

/-- An update keeps the table or stores an entry under the key of its message. -/
theorem hushKvupdate_stores {kv' : Store} {call : KvCall}
    (hupdate : hushKvupdate c kv call=some kv') :
    kv'=kv ∨ (∃e,kv'.lookup (messageKey call.opretbuf)=some e) ∧
      ∀key≠messageKey call.opretbuf,kv'.lookup key=kv.lookup key := by
  cases hreaches : call.reaches c with
  | none =>
    rw [hushKvupdate,hreaches] at hupdate
    cases hupdate
  | some reached =>
    cases reached with
    | false =>
      rw [hushKvupdate_skipped hreaches] at hupdate
      exact .inl (Option.some.inj hupdate).symm
    | true =>
      have hne : ∀key≠messageKey call.opretbuf,(hushKvsearch kv (messageHeight call.opretbuf)
          (messageKey call.opretbuf)).1.lookup key=kv.lookup key :=
        fun key hkey => lookup_hushKvsearch hkey
      have hfound := hushKvsearch_found kv (messageHeight call.opretbuf)
        (messageKey call.opretbuf)
      rw [hushKvupdate_reached hreaches] at hupdate
      generalize hushKvsearch kv (messageHeight call.opretbuf) (messageKey call.opretbuf)=result
        at hupdate hfound hne
      obtain ⟨searched,found⟩ := result
      dsimp only at hupdate hfound hne
      split_ifs at hupdate with hrefused
      · cases found with
        | none => exact hrefused.elim
        | some e => exact .inl ((Option.some.inj hupdate).symm.trans (hfound e rfl))
      · obtain rfl := Option.some.inj hupdate
        refine .inr ⟨⟨_,AList.lookup_insert searched⟩,fun key hkey => ?_⟩
        rw [AList.lookup_insert_ne hkey,hne key hkey]

end Safety

/-- Whatever stands behind the message, the update reads nothing of it, divides by no
zero, and returns with the table as it was or with an entry stored under the key. -/
def UpdatesSafely (c : KvChain) (kv : Store) (opretbuf : List Byte) (value : BitVec 64) : Prop :=
  ∀stale,Probe.Safe opretbuf.length (Probe.overlay opretbuf stale)
      (kvupdateProbe c kv opretbuf.length value) ∧
    ∃kv',Probe.run (Probe.overlay opretbuf stale)
        (kvupdateProbe c kv opretbuf.length value)=some kv' ∧
      (kv'=kv ∨ (∃e,kv'.lookup (messageKey opretbuf)=some e) ∧
        ∀key≠messageKey opretbuf,kv'.lookup key=kv.lookup key)

/-- An update is safe exactly when its message holds what the code reads of it. -/
theorem updatesSafely_iff (c : KvChain) (kv : Store) (opretbuf : List Byte)
    (value : BitVec 64) :
    UpdatesSafely c kv opretbuf value ↔ MessageHolds opretbuf c kv value := by
  constructor
  · intro h
    exact (kvupdateProbe_spec c kv (fun _ => 0) ⟨0,opretbuf,[],value⟩ rfl rfl).1.mp (h _).1
  · intro h stale
    obtain ⟨hsafe,hrun⟩ := kvupdateProbe_spec c kv stale ⟨0,opretbuf,[],value⟩ rfl rfl
    obtain ⟨kv',hkv'⟩ := Option.isSome_iff_exists.mp (hsafe.mpr h).isSome
    refine ⟨hsafe.mpr h,kv',hkv',?_⟩
    rw [hrun (hsafe.mpr h)] at hkv'
    exact hushKvupdate_stores hkv'

/-- A header that names an empty key. -/
def emptyKeyMessage : List Byte := 0x4b::List.replicate 12 0

/-- The fee divides by the length of the key. -/
theorem emptyKey_divides : ¬UpdatesSafely unsignedFails ∅ emptyKeyMessage 100000 := by
  intro h
  have hholds := (kvupdateProbe_spec unsignedFails ∅ (fun _ => 0)
    ⟨0,emptyKeyMessage,[],100000⟩ rfl rfl).1.mp (h _).1
  rcases hholds with hsym | ⟨-,hshort | hkey⟩
  · exact absurd hsym (by decide)
  · exact absurd hshort (by decide)
  · exact hkey.1 (by decide)

end Zdeex.Kv
