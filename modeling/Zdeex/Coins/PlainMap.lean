import Zdeex.Coins.Frame
import Zdeex.Coins.Utxo
import Zdeex.Coins.Db

namespace Zdeex.Coins

open Zdeex.Framework
open LayerStack (base layer Layers)

section Frames

variable {σ Tree : Type} (E : TreeEnv Tree) (B : BaseOps σ Tree)

theorem coinLayers_getBestAnchor (type : ShieldedType) (v : CoinsView σ Tree) :
    coinLayers (getBestAnchor B type v).2=coinLayers v := by
  cases type with
  | sprout => exact map_getBestAnchor_sprout B (fun _ _ => rfl) v
  | sapling => exact map_getBestAnchor_sapling B (fun _ _ => rfl) v

theorem coinLayers_pushAnchor (tree : Tree) (v : CoinsView σ Tree) :
    coinLayers (pushAnchor E B tree v)=coinLayers v := by
  unfold pushAnchor
  dsimp only
  split_ifs
  · exact coinLayers_getBestAnchor B .sapling v
  · refine (map_updateTop ?_ _).trans (coinLayers_getBestAnchor B .sapling v)
    exact fun c => rfl

theorem coinLayers_popAnchor {rt : Uint256} {type : ShieldedType} {v v' : CoinsView σ Tree}
    (h : popAnchor E B rt type v=some v') : coinLayers v'=coinLayers v := by
  have hbest := coinLayers_getBestAnchor B type v
  unfold popAnchor at h
  dsimp only at h
  split_ifs at h
  · obtain rfl := Option.some.inj h
    exact hbest
  · cases type with
    | sprout =>
      obtain rfl := Option.some.inj h
      refine (map_updateTop ?_ _).trans hbest
      exact fun c => rfl
    | sapling =>
      dsimp only at h
      split at h
      · cases h
      · obtain rfl := Option.some.inj h
        refine (map_updateTop ?_ _).trans
          ((map_getSaplingAnchorAt E B (fun _ _ _ => rfl) _ _).trans hbest)
        exact fun c => rfl

theorem coinLayers_setNullifiers (nfs : List Uint256) (spent : Bool) (v : CoinsView σ Tree) :
    coinLayers (setNullifiers nfs spent v)=coinLayers v := by
  refine map_updateTop ?_ v
  exact fun c => rfl

theorem coinLayers_setBestBlock (hash : Uint256) (v : CoinsView σ Tree) :
    coinLayers (setBestBlock hash v)=coinLayers v := by
  refine map_updateTop ?_ v
  exact fun c => rfl

end Frames

/-- Edits of the plain map; an edit may find any coins that show the same unspent
outputs as the entry does. -/
def PlainStep {Tree : Type} (ms : List PlainMap) (op : Op Tree) (ms' : List PlainMap) : Prop :=
  match op,ms with
  | .modifyCoins txid edit,m::m₀::rest =>
      ∃x,seen (some x)=seen (m txid) ∧ ms'=Function.update m txid (some (edit x))::m₀::rest
  | .flush,_ => ms'=flushSnapshot ms
  | .pushCache,_ => ms'=pushSnapshot ms
  | .dropCache,_ => ms'=dropSnapshot ms
  | _,_ => ms'=ms

/-- Edits of the plain map; a missing entry is edited as the empty one. -/
def plainStep {Tree : Type} (ms : List PlainMap) (op : Op Tree) : List PlainMap :=
  match op,ms with
  | .modifyCoins txid edit,m::m₀::rest =>
      Function.update m txid (some (edit ((m txid).getD CCoins.clear)))::m₀::rest
  | .flush,_ => flushSnapshot ms
  | .pushCache,_ => pushSnapshot ms
  | .dropCache,_ => dropSnapshot ms
  | _,_ => ms

/-- The one operation with an assertion of its own. -/
def Op.popsAnchor {Tree : Type} : Op Tree → Prop
  | .popAnchor _ _ => True
  | _ => False

/-- Edits do not look at the leftovers of pruned entries. -/
def Op.Respectful {Tree : Type} : Op Tree → Prop
  | .modifyCoins _ edit => RespectsSeen edit
  | _ => True

theorem seen_getD_clear (o : Option CCoins) : seen (some (o.getD CCoins.clear))=seen o := by
  cases o with
  | none => exact seen_of_pruned rfl
  | some c => rfl

section Runs

variable {σ Tree : Type} {E : TreeEnv Tree} {B : BaseOps σ Tree}

/-- Every operation is followed by the plain maps and trips no assertion. -/
theorem step_refines (hB : WritesCoins B) (v : CoinsView σ Tree) (ms : List PlainMap)
    (op : Op Tree) (hop : ¬op.popsAnchor) (h : RefinesCoins B v ms) :
    ∃v' ms',step E B v op=some v' ∧ PlainStep ms op ms' ∧ RefinesCoins B v' ms' := by
  cases op with
  | getCoins txid => exact ⟨_,ms,rfl,rfl,h.read txid⟩
  | accessCoins txid => exact ⟨_,ms,rfl,rfl,h.read txid⟩
  | haveCoins txid => exact ⟨_,ms,rfl,rfl,h.read txid⟩
  | modifyCoins txid edit =>
    cases v with
    | base s =>
      match ms,h.2 with
      | [m],_ => exact ⟨_,[m],rfl,rfl,h⟩
    | layer c v =>
      obtain ⟨m,a,rest,rfl,-,-,-⟩ := h.2.layer_inv
      obtain ⟨x,hx,href⟩ := h.edit (E := E) txid edit
      exact ⟨_,_,rfl,⟨x,hx,rfl⟩,href⟩
  | getNullifier nf => exact ⟨_,ms,rfl,rfl,h.of_eq (map_getNullifier B (fun _ _ => rfl) v nf)⟩
  | setNullifiers nfs spent =>
    exact ⟨_,ms,rfl,rfl,h.of_eq (coinLayers_setNullifiers nfs spent v)⟩
  | getSaplingAnchorAt rt =>
    exact ⟨_,ms,rfl,rfl,h.of_eq (map_getSaplingAnchorAt E B (fun _ _ _ => rfl) v rt)⟩
  | pushAnchor tree => exact ⟨_,ms,rfl,rfl,h.of_eq (coinLayers_pushAnchor E B tree v)⟩
  | popAnchor rt type => exact absurd trivial hop
  | getBestBlock => exact ⟨_,ms,rfl,rfl,h.of_eq (map_getBestBlock B (fun _ _ => rfl) v)⟩
  | setBestBlock hash => exact ⟨_,ms,rfl,rfl,h.of_eq (coinLayers_setBestBlock hash v)⟩
  | getBestAnchor type => exact ⟨_,ms,rfl,rfl,h.of_eq (coinLayers_getBestAnchor B type v)⟩
  | flush =>
    obtain ⟨v',hv',href⟩ := h.flush (E := E) hB
    exact ⟨v',_,hv',rfl,href⟩
  | pushCache => exact ⟨_,_,rfl,rfl,h.pushCache⟩
  | dropCache =>
    cases v with
    | base s =>
      match ms,h.2 with
      | [m],_ => exact ⟨_,[m],rfl,rfl,h⟩
    | layer c v => exact ⟨v,_,rfl,rfl,h.dropCache⟩

/-- For edits that cannot tell pruned entries from missing ones the choice of
representative does not matter. -/
theorem step_refines_plain (hB : WritesCoins B) (v : CoinsView σ Tree) (ms : List PlainMap)
    (op : Op Tree) (hop : ¬op.popsAnchor ∧ op.Respectful) (h : RefinesCoins B v ms) :
    ∃v' ms',step E B v op=some v' ∧ ms'=plainStep ms op ∧ RefinesCoins B v' ms' := by
  obtain ⟨v',ms',hstep,hplain,href⟩ := step_refines (E := E) hB v ms op hop.1 h
  refine ⟨v',_,hstep,rfl,?_⟩
  cases op with
  | modifyCoins txid edit =>
    match ms,hplain with
    | [],hplain =>
      obtain rfl : ms'=[] := hplain
      exact href
    | [m],hplain =>
      obtain rfl : ms'=[m] := hplain
      exact href
    | m::m₀::rest,⟨x,hx,hms'⟩ =>
      subst hms'
      refine ⟨href.1,?_⟩
      have hsame : ∀k,seen (Function.update m txid (some (edit x)) k)=
          seen (Function.update m txid (some (edit ((m txid).getD CCoins.clear))) k) := by
        intro k
        by_cases hk : k=txid
        · subst k
          rw [Function.update_self,Function.update_self]
          exact hop.2 _ _ (hx.trans (seen_getD_clear _).symm)
        · rw [Function.update_of_ne hk,Function.update_of_ne hk]
      cases v' with
      | base s => exact href.2.elim
      | layer c v' => exact ⟨fun k => (href.2.1 k).trans (hsame k),href.2.2⟩
  | _ =>
    simp only [PlainStep] at hplain
    subst hplain
    exact href

/-- Any run over a stack of caches trips no assertion, and what it shows in the
end is what plain maps show on which every edit is applied directly, flushing
and dropping a cache being snapshots. The edits may be any function; when they
do not look at the leftovers of pruned entries the plain run is a function of
the operations alone. -/
theorem cacheStack_refines_plainMap (hB : WritesCoins B) (ops : List (Op Tree))
    (hops : ∀op∈ops,¬op.popsAnchor) (s : σ) :
    ∃v m ms,run (step E B) ops (base s)=some v ∧
      SpecRun PlainStep [B.getCoins s] ops (m::ms) ∧
      (∀txid,seen (getCoins E B v txid).1=seen (m txid) ∧
        seen (accessCoins E B v txid).1=seen (m txid) ∧
        ((seen (m txid)).isSome → (haveCoins E B v txid).1=true)) ∧
      ((∀op∈ops,op.Respectful) → ∀txid,
        ∃m',(ops.foldl plainStep [B.getCoins s]).head?=some m' ∧
          seen (getCoins E B v txid).1=seen (m' txid)) := by
  have hstart : RefinesCoins B (base s : CoinsView σ Tree) [B.getCoins s] :=
    ⟨trivial,fun k => rfl⟩
  obtain ⟨v,ms,hrun,hspec,href⟩ :=
    run_simulates (step_refines (E := E) hB) ops hops (base s) [B.getCoins s] hstart
  obtain ⟨m,ms,rfl,-⟩ := href.2.cons_inv
  have hread : ∀txid,seen (getCoins E B v txid).1=seen (m txid) := fun txid =>
    (congrArg seen (getCoins_spec E B v txid).1).trans (href.shows txid)
  refine ⟨v,m,ms,hrun,hspec,fun txid => ⟨hread txid,hread txid,fun hsome => ?_⟩,
    fun hresp txid => ?_⟩
  · rw [← hread txid] at hsome
    unfold haveCoins
    cases h : (getCoins E B v txid).1 with
    | none => simp [h] at hsome
    | some coins =>
      cases hv : coins.vout with
      | nil => simp [h,seen,CCoins.isPruned,hv] at hsome
      | cons o os => simp [h,hv]
  · obtain ⟨v',ms',hrun',hspec',href'⟩ :=
      run_simulates (step_refines_plain (E := E) hB) ops (fun op h => ⟨hops op h,hresp op h⟩)
        (base s) [B.getCoins s] hstart
    obtain rfl : v=v' := Option.some.inj (hrun.symm.trans hrun')
    obtain ⟨m',ms',rfl,-⟩ := href'.2.cons_inv
    rw [hspec'.foldl]
    exact ⟨m',rfl,(congrArg seen (getCoins_spec E B v txid).1).trans (href'.shows txid)⟩

end Runs

/-- The database meets the assumption on the base. -/
theorem CCoinsViewDB.writesCoins {Tree : Type} (E : TreeEnv Tree) :
    WritesCoins (CCoinsViewDB.ops E) := by
  intro d c k
  change seen ((KeyMap.writeLoop writeCoins c.cacheCoins.entries d.coins).lookup k)=_
  rw [KeyMap.writeLoop_spec]
  cases c.cacheCoins.lookup k with
  | none => rfl
  | some e =>
    dsimp only [writeCoins]
    split_ifs with hd hp
    · exact (seen_of_pruned hp).symm
    · rfl
    · rfl

/-- An output is created in one cache and spent in a second one on top of it. -/
def createThenSpend : List (Op Unit) :=
  [.pushCache,.modifyCoins 7 (fun _ => ⟨true,[⟨50,[]⟩],1,1⟩),
    .pushCache,.modifyCoins 7 (fun _ => CCoins.clear),.flush]

theorem cacheStack_refines_plainMap_createThenSpend :
    ∃v,run (step bareEnv (CCoinsViewDB.ops bareEnv)) createThenSpend (base CCoinsViewDB.new)=
        some v ∧
      seen (getCoins bareEnv (CCoinsViewDB.ops bareEnv) v 7).1=none := by
  obtain ⟨v,m,ms,hrun,-,-,hplain⟩ := cacheStack_refines_plainMap (E := bareEnv)
    (CCoinsViewDB.writesCoins bareEnv) createThenSpend
    (by simp [createThenSpend,Op.popsAnchor]) CCoinsViewDB.new
  have hresp : ∀op∈createThenSpend,op.Respectful := by
    simp [createThenSpend,Op.Respectful,RespectsSeen]
  obtain ⟨m',hm',hseen⟩ := hplain hresp 7
  refine ⟨v,hrun,hseen.trans ?_⟩
  obtain rfl := Option.some.inj hm'
  rfl

end Zdeex.Coins
