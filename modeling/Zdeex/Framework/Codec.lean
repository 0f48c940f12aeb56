import Zdeex.Framework.Reader

namespace Zdeex.Framework

/-- One description of a format for both directions. `none` is an exception; `Fits`
says which values the reader can return. -/
structure Codec (α : Type) where
  write : α → Option (List Byte)
  read : Reader α
  Fits : α → Prop
  reads_write : ∀{a e},Fits a → write a=some e → Reads read e a
  write_read : ∀{bs a rest},read bs=some (a,rest) → ∃e,write a=some e ∧ bs=e++rest
  fits_read : ∀{bs a rest},read bs=some (a,rest) → Fits a

theorem Reader.bind_eq_some {α β : Type} {r : Reader α} {f : α → Reader β} {bs : List Byte}
    {b : β} {rest : List Byte} (h : (r>>=f) bs=some (b,rest)) :
    ∃a bs',r bs=some (a,bs') ∧ f a bs'=some (b,rest) := by
  have hbind : (r bs).bind (fun p => f p.1 p.2)=some (b,rest) := h
  obtain ⟨⟨a,bs'⟩,hr,hf⟩ := Option.bind_eq_some_iff.mp hbind
  exact ⟨a,bs',hr,hf⟩

namespace Codec

variable {α β : Type}

/-- A field of a fixed number of bytes. -/
def word (w : Nat) (hw : 8∣w) : Codec (BitVec w) where
  write x := some (toBytes x)
  read := Reader.word w
  Fits _ := True
  reads_write := by
    intro x e _ h
    obtain rfl := Option.some.inj h
    exact Reads.word hw x
  write_read := by
    intro bs x rest h
    refine ⟨_,rfl,?_⟩
    obtain ⟨taken,bs',hbytes,hx⟩ := Reader.bind_eq_some h
    unfold Reader.bytes at hbytes
    split_ifs at hbytes with hlen
    obtain ⟨rfl,rfl⟩ := Prod.mk.inj (Option.some.inj hbytes)
    obtain ⟨rfl,rfl⟩ := Prod.mk.inj (Option.some.inj hx)
    have htake : toBytes (ofBytes w (bs.take (w/8)))=bs.take (w/8) :=
      toBytes_ofBytes hw (by rw [List.length_take]; omega)
    rw [htake,List.take_append_drop]
  fits_read _ := trivial

/-- One byte for a value. -/
def tag (enc : α → Byte) (dec : Byte → Option α) (hdec : ∀a,dec (enc a)=some a)
    (henc : ∀b a,dec b=some a → enc a=b) : Codec α where
  write a := some [enc a]
  read
    | [] => none
    | b::bs => (dec b).map fun a => (a,bs)
  Fits _ := True
  reads_write := by
    intro a e _ h rest
    obtain rfl := Option.some.inj h
    change (dec (enc a)).map (fun a => (a,rest))=some (a,rest)
    rw [hdec,Option.map_some]
  write_read := by
    intro bs a rest h
    cases bs with
    | nil => cases h
    | cons b bs =>
      obtain ⟨a',ha,h⟩ := Option.map_eq_some_iff.mp h
      obtain ⟨rfl,rfl⟩ := Prod.mk.inj h
      exact ⟨_,rfl,by rw [henc b a' ha]; rfl⟩
  fits_read _ := trivial

/-- A field and what follows it; the format of the second part may depend on the
value of the first one. -/
def andThen (A : Codec α) (B : α → Codec β) : Codec (α × β) where
  write p := do
    let e ← A.write p.1
    let e' ← (B p.1).write p.2
    return e++e'
  read := do
    let a ← A.read
    let b ← (B a).read
    return (a,b)
  Fits p := A.Fits p.1 ∧ (B p.1).Fits p.2
  reads_write := by
    rintro ⟨a,b⟩ e ⟨ha,hb⟩ h
    obtain ⟨e₁,he₁,h⟩ := Option.bind_eq_some_iff.mp h
    obtain ⟨e₂,he₂,h⟩ := Option.bind_eq_some_iff.mp h
    obtain rfl := Option.some.inj h
    exact (A.reads_write ha he₁).bind (((B a).reads_write hb he₂).map _)
  write_read := by
    rintro bs ⟨a,b⟩ rest h
    obtain ⟨a',bs',ha,h⟩ := Reader.bind_eq_some h
    obtain ⟨b',bs'',hb,h⟩ := Reader.bind_eq_some h
    obtain ⟨hpair,rfl⟩ := Prod.mk.inj (Option.some.inj h)
    obtain ⟨rfl,rfl⟩ := Prod.mk.inj hpair
    obtain ⟨e₁,he₁,rfl⟩ := A.write_read ha
    obtain ⟨e₂,he₂,rfl⟩ := (B a').write_read hb
    refine ⟨e₁++e₂,?_,by rw [List.append_assoc]⟩
    dsimp only
    rw [he₁,Option.bind_eq_bind,Option.bind_some,he₂]
    rfl
  fits_read := by
    rintro bs ⟨a,b⟩ rest h
    obtain ⟨a',bs',ha,hrest⟩ := Reader.bind_eq_some h
    obtain ⟨b',bs'',hb,hpure⟩ := Reader.bind_eq_some hrest
    obtain ⟨rfl,rfl⟩ := Prod.mk.inj (Prod.mk.inj (Option.some.inj hpure)).1
    exact ⟨A.fits_read ha,(B a').fits_read hb⟩

def pair (A : Codec α) (B : Codec β) : Codec (α × β) := A.andThen fun _ => B

/-- The same bytes for another shape of the value. -/
def shaped (A : Codec α) (f : α → β) (g : β → α) (hgf : ∀a,g (f a)=a) (hfg : ∀b,f (g b)=b) :
    Codec β where
  write b := A.write (g b)
  read := do return f (← A.read)
  Fits b := A.Fits (g b)
  reads_write := by
    intro b e hb he
    have hmap := (A.reads_write hb he).map f
    rwa [hfg] at hmap
  write_read := by
    intro bs b rest h
    obtain ⟨a,bs',ha,h⟩ := Reader.bind_eq_some h
    obtain ⟨rfl,rfl⟩ := Prod.mk.inj (Option.some.inj h)
    rw [hgf]
    exact A.write_read ha
  fits_read := by
    intro bs b rest h
    obtain ⟨a,bs',ha,hpure⟩ := Reader.bind_eq_some h
    obtain ⟨rfl,rfl⟩ := Prod.mk.inj (Option.some.inj hpure)
    rw [hgf]
    exact A.fits_read ha

/-- A field that is there only under a condition; otherwise the reader leaves `d`. -/
def when (c : Bool) (A : Codec α) (d : α) : Codec α where
  write a := if c then A.write a else some []
  read := if c then A.read else pure d
  Fits a := if c then A.Fits a else a=d
  reads_write := by
    intro a e ha he
    cases c with
    | true => exact A.reads_write ha he
    | false =>
      obtain rfl := Option.some.inj he
      have heq : a=d := ha
      rw [heq]
      exact Reads.pure d
  write_read := by
    intro bs a rest h
    cases c with
    | true => exact A.write_read h
    | false =>
      obtain ⟨-,rfl⟩ := Prod.mk.inj (Option.some.inj h)
      exact ⟨[],rfl,rfl⟩
  fits_read := by
    intro bs a rest h
    cases c with
    | true => exact A.fits_read h
    | false => exact (Prod.mk.inj (Option.some.inj h)).1.symm

/-- A condition without which both directions throw. -/
def require (c : Bool) : Codec Unit where
  write _ := if c then some [] else none
  read := if c then pure () else Reader.fail
  Fits _ := True
  reads_write := by
    intro a e _ he
    cases c with
    | true =>
      obtain rfl := Option.some.inj he
      exact Reads.pure ()
    | false => cases he
  write_read := by
    intro bs a rest h
    cases c with
    | true =>
      obtain ⟨-,rfl⟩ := Prod.mk.inj (Option.some.inj h)
      exact ⟨[],rfl,rfl⟩
    | false => cases h
  fits_read _ := trivial

/-- Items one after the other. -/
def writeItems (A : Codec α) : List α → Option (List Byte)
  | [] => some []
  | a::as => do
      let e ← A.write a
      let es ← A.writeItems as
      return e++es

theorem reads_items (A : Codec α) {as : List α} {e : List Byte} (h : ∀a∈as,A.Fits a)
    (he : A.writeItems as=some e) : Reads (Reader.items A.read as.length) e as := by
  induction as generalizing e with
  | nil =>
    obtain rfl := Option.some.inj he
    exact Reads.pure []
  | cons a as ih =>
    obtain ⟨e₁,he₁,he⟩ := Option.bind_eq_some_iff.mp he
    obtain ⟨e₂,he₂,he⟩ := Option.bind_eq_some_iff.mp he
    obtain rfl := Option.some.inj he
    have htail := (ih (fun b hb => h b (List.mem_cons_of_mem a hb)) he₂).map fun as => a::as
    exact (A.reads_write (h a List.mem_cons_self) he₁).bind htail

theorem write_items (A : Codec α) {n : Nat} {bs rest : List Byte} {as : List α}
    (h : Reader.items A.read n bs=some (as,rest)) :
    as.length=n ∧ (∀a∈as,A.Fits a) ∧ ∃e,A.writeItems as=some e ∧ bs=e++rest := by
  induction n generalizing bs as with
  | zero =>
    obtain ⟨rfl,rfl⟩ := Prod.mk.inj (Option.some.inj h)
    exact ⟨rfl,by simp,[],rfl,rfl⟩
  | succ n ih =>
    obtain ⟨a,bs',ha,h⟩ := Reader.bind_eq_some h
    obtain ⟨as',bs'',has,h⟩ := Reader.bind_eq_some h
    obtain ⟨rfl,rfl⟩ := Prod.mk.inj (Option.some.inj h)
    have hfits := A.fits_read ha
    obtain ⟨e₁,he₁,rfl⟩ := A.write_read ha
    obtain ⟨hlen,hall,e₂,he₂,rfl⟩ := ih has
    refine ⟨by rw [List.length_cons,hlen],List.forall_mem_cons.mpr ⟨hfits,hall⟩,e₁++e₂,?_,
      by rw [List.append_assoc]⟩
    rw [writeItems,he₁,he₂]
    rfl

/-- A number of items and the items. -/
def counted (N : Codec Nat) (A : Codec α) : Codec (List α) where
  write as := do
    let e ← N.write as.length
    let es ← A.writeItems as
    return e++es
  read := do
    let n ← N.read
    Reader.items A.read n
  Fits as := N.Fits as.length ∧ ∀a∈as,A.Fits a
  reads_write := by
    rintro as e ⟨hlen,has⟩ he
    obtain ⟨e₁,he₁,he⟩ := Option.bind_eq_some_iff.mp he
    obtain ⟨e₂,he₂,he⟩ := Option.bind_eq_some_iff.mp he
    obtain rfl := Option.some.inj he
    exact (N.reads_write hlen he₁).bind (A.reads_items has he₂)
  write_read := by
    intro bs as rest h
    obtain ⟨n,bs',hn,hitems⟩ := Reader.bind_eq_some h
    obtain ⟨e₁,he₁,rfl⟩ := N.write_read hn
    obtain ⟨rfl,-,e₂,he₂,rfl⟩ := A.write_items hitems
    refine ⟨e₁++e₂,?_,by rw [List.append_assoc]⟩
    rw [he₁,he₂]
    rfl
  fits_read := by
    intro bs as rest h
    obtain ⟨n,bs',hn,hitems⟩ := Reader.bind_eq_some h
    obtain ⟨rfl,hall,-⟩ := A.write_items hitems
    exact ⟨N.fits_read hn,hall⟩

section Fits

variable (A : Codec α) (B : α → Codec β) (C : Codec β)

@[simp] theorem fits_word {w : Nat} (hw : 8∣w) (x : BitVec w) : (word w hw).Fits x := trivial

@[simp] theorem fits_tag {enc : α → Byte} {dec : Byte → Option α} {hdec : ∀a,dec (enc a)=some a}
    {henc : ∀b a,dec b=some a → enc a=b} (a : α) : (tag enc dec hdec henc).Fits a := trivial

@[simp] theorem fits_andThen (p : α × β) :
    (A.andThen B).Fits p ↔ A.Fits p.1 ∧ (B p.1).Fits p.2 := Iff.rfl

@[simp] theorem fits_pair (p : α × β) : (A.pair C).Fits p ↔ A.Fits p.1 ∧ C.Fits p.2 := Iff.rfl

@[simp] theorem fits_shaped {f : α → β} {g : β → α} {hgf : ∀a,g (f a)=a} {hfg : ∀b,f (g b)=b}
    (b : β) : (A.shaped f g hgf hfg).Fits b ↔ A.Fits (g b) := Iff.rfl

@[simp] theorem fits_require (c : Bool) : (require c).Fits () := trivial

theorem fits_when (c : Bool) (d a : α) :
    (when c A d).Fits a ↔ (c=true → A.Fits a) ∧ (c=false → a=d) := by
  cases c <;> simp [when]

@[simp] theorem fits_counted (N : Codec Nat) (as : List α) :
    (counted N A).Fits as ↔ N.Fits as.length ∧ ∀a∈as,A.Fits a := Iff.rfl

end Fits

section Writes

variable (A : Codec α) (B : α → Codec β) (C : Codec β)

@[simp] theorem isSome_word {w : Nat} (hw : 8∣w) (x : BitVec w) :
    ((word w hw).write x).isSome=true := rfl

@[simp] theorem isSome_tag {enc : α → Byte} {dec : Byte → Option α}
    {hdec : ∀a,dec (enc a)=some a} {henc : ∀b a,dec b=some a → enc a=b} (a : α) :
    ((tag enc dec hdec henc).write a).isSome=true := rfl

@[simp] theorem isSome_andThen (p : α × β) :
    ((A.andThen B).write p).isSome=((A.write p.1).isSome && ((B p.1).write p.2).isSome) := by
  cases hA : A.write p.1 with
  | none => simp [andThen,hA]
  | some e => cases hB : (B p.1).write p.2 <;> simp [andThen,hA,hB]

@[simp] theorem isSome_pair (p : α × β) :
    ((A.pair C).write p).isSome=((A.write p.1).isSome && (C.write p.2).isSome) :=
  isSome_andThen ..

@[simp] theorem isSome_shaped {f : α → β} {g : β → α} {hgf : ∀a,g (f a)=a}
    {hfg : ∀b,f (g b)=b} (b : β) :
    ((A.shaped f g hgf hfg).write b).isSome=(A.write (g b)).isSome := rfl

@[simp] theorem isSome_require (c : Bool) (u : Unit) : ((require c).write u).isSome=c := by
  cases c <;> rfl

@[simp] theorem isSome_when (c : Bool) (d a : α) :
    ((when c A d).write a).isSome=(!c || (A.write a).isSome) := by
  cases c <;> rfl

theorem isSome_writeItems (as : List α) :
    (A.writeItems as).isSome=as.all fun a => (A.write a).isSome := by
  induction as with
  | nil => rfl
  | cons a as ih =>
    rw [List.all_cons,← ih]
    cases hA : A.write a with
    | none => simp [writeItems,hA]
    | some e => cases hB : A.writeItems as <;> simp [writeItems,hA,hB]

@[simp] theorem isSome_counted (N : Codec Nat) (as : List α) :
    ((counted N A).write as).isSome=
      ((N.write as.length).isSome && as.all fun a => (A.write a).isSome) := by
  rw [← isSome_writeItems]
  cases hN : N.write as.length with
  | none => simp [counted,hN]
  | some e => cases hB : A.writeItems as <;> simp [counted,hN,hB]

end Writes

theorem write_when (c : Bool) (A : Codec α) (d d' : α) : (when c A d).write=(when c A d').write :=
  rfl

theorem write_andThen {A A' : Codec α} {B B' : α → Codec β} (hA : A.write=A'.write)
    (hB : ∀a,(B a).write=(B' a).write) : (A.andThen B).write=(A'.andThen B').write := by
  funext p
  simp only [andThen,hA,hB]

theorem write_shaped {A A' : Codec α} {f : α → β} {g : β → α} {hgf : ∀a,g (f a)=a}
    {hfg : ∀b,f (g b)=b} (hA : A.write=A'.write) :
    (A.shaped f g hgf hfg).write=(A'.shaped f g hgf hfg).write := by
  funext b
  simp only [shaped,hA]

/-- A check after the fields; a value that fails it is neither written nor read. -/
def checked (A : Codec α) (p : α → Bool) : Codec α where
  write a := if p a then A.write a else none
  read := do
    let a ← A.read
    if p a then pure a else Reader.fail
  Fits a := A.Fits a ∧ p a=true
  reads_write := by
    rintro a e ⟨ha,hp⟩ he
    rw [if_pos hp] at he
    rw [← List.append_nil e]
    refine (A.reads_write ha he).bind ?_
    rw [if_pos hp]
    exact Reads.pure a
  write_read := by
    intro bs a rest h
    obtain ⟨b,bs',hb,hcheck⟩ := Reader.bind_eq_some h
    split_ifs at hcheck with hp
    · obtain ⟨rfl,rfl⟩ := Prod.mk.inj (Option.some.inj hcheck)
      rw [if_pos hp]
      exact A.write_read hb
    · cases hcheck
  fits_read := by
    intro bs a rest h
    obtain ⟨b,bs',hb,hcheck⟩ := Reader.bind_eq_some h
    split_ifs at hcheck with hp
    · obtain ⟨rfl,rfl⟩ := Prod.mk.inj (Option.some.inj hcheck)
      exact ⟨A.fits_read hb,hp⟩
    · cases hcheck

/-- A byte that says whether a value follows. -/
def optional (A : Codec α) : Codec (Option α) where
  write
    | none => some [0#8]
    | some a => (A.write a).map (1#8::·)
  read := do
    let discriminant ← Reader.byte
    if discriminant=0#8 then pure none
    else if discriminant=1#8 then return some (← A.read)
    else Reader.fail
  Fits
    | none => True
    | some a => A.Fits a
  reads_write := by
    intro a e ha he
    cases a with
    | none =>
      obtain rfl := Option.some.inj he
      exact (Reads.byte 0#8).bind (Reads.pure none)
    | some a =>
      obtain ⟨e',he',rfl⟩ := Option.map_eq_some_iff.mp he
      exact (Reads.byte 1#8).bind ((A.reads_write ha he').map some)
  write_read := by
    intro bs a rest h
    cases bs with
    | nil => cases h
    | cons b bs =>
      obtain ⟨_,_,hbyte,hread⟩ := Reader.bind_eq_some h
      obtain ⟨rfl,rfl⟩ := Prod.mk.inj (Option.some.inj hbyte)
      split_ifs at hread with h₀ h₁
      · obtain ⟨rfl,rfl⟩ := Prod.mk.inj (Option.some.inj hread)
        exact ⟨_,rfl,by rw [h₀]; rfl⟩
      · obtain ⟨c,bs',hc,hpure⟩ := Reader.bind_eq_some hread
        obtain ⟨rfl,rfl⟩ := Prod.mk.inj (Option.some.inj hpure)
        obtain ⟨e,he,rfl⟩ := A.write_read hc
        exact ⟨1#8::e,by change (A.write c).map _=_; rw [he]; rfl,by rw [h₁]; rfl⟩
      · cases hread
  fits_read := by
    intro bs a rest h
    obtain ⟨b,bs',_,hread⟩ := Reader.bind_eq_some h
    split_ifs at hread
    · obtain ⟨rfl,-⟩ := Prod.mk.inj (Option.some.inj hread)
      trivial
    · obtain ⟨c,bs₂,hc,hpure⟩ := Reader.bind_eq_some hread
      obtain ⟨rfl,-⟩ := Prod.mk.inj (Option.some.inj hpure)
      exact A.fits_read hc
    · cases hread

/-- The values that are read back from their own bytes. -/
theorem reads_iff_fits (A : Codec α) {a : α} {e : List Byte} (he : A.write a=some e) :
    Reads A.read e a ↔ A.Fits a := by
  refine ⟨fun h => ?_,fun h => A.reads_write h he⟩
  exact A.fits_read (h [])

end Codec

/-- A reader looks at nothing behind what it takes. -/
def Reader.Local {α : Type} (r : Reader α) : Prop :=
  ∀⦃bs a rest⦄,r bs=some (a,rest) → ∃e,bs=e++rest ∧ Reads r e a

namespace Reader.Local

variable {α β : Type}

theorem pure (a : α) : Reader.Local (Pure.pure a : Reader α) := by
  intro bs b rest h
  obtain ⟨rfl,rfl⟩ := Prod.mk.inj (Option.some.inj h)
  exact ⟨[],rfl,Reads.pure a⟩

theorem bind {r : Reader α} {f : α → Reader β} (hr : r.Local) (hf : ∀a,(f a).Local) :
    (r>>=f).Local := by
  intro bs b rest h
  obtain ⟨a,bs',ha,hb⟩ := Reader.bind_eq_some h
  obtain ⟨e,rfl,he⟩ := hr ha
  obtain ⟨e',rfl,he'⟩ := hf a hb
  exact ⟨e++e',(List.append_assoc e e' rest).symm,he.bind he'⟩

theorem of_codec (A : Codec α) : A.read.Local := by
  intro bs a rest h
  obtain ⟨e,he,hbs⟩ := A.write_read h
  exact ⟨e,hbs,A.reads_write (A.fits_read h) he⟩

theorem byte : Reader.byte.Local := by
  intro bs b rest h
  cases bs with
  | nil => cases h
  | cons c bs =>
    obtain ⟨rfl,rfl⟩ := Prod.mk.inj (Option.some.inj h)
    exact ⟨[c],rfl,Reads.byte c⟩

theorem bytes (n : Nat) : (Reader.bytes n).Local := by
  intro bs as rest h
  unfold Reader.bytes at h
  split_ifs at h with hn
  obtain ⟨rfl,rfl⟩ := Prod.mk.inj (Option.some.inj h)
  refine ⟨bs.take n,(List.take_append_drop n bs).symm,?_⟩
  have hread := Reads.bytes (bs.take n)
  rwa [List.length_take_of_le hn] at hread

/-- What a complete reading takes is not taken from a part of it. -/
theorem not_of_cut {r : Reader α} (hr : r.Local) {e e' : List Byte} {a : α} (he : Reads r (e++e') a)
    (hcut : e'≠[]) : r e=none := by
  cases h : r e with
  | none => rfl
  | some p =>
    obtain ⟨b,rest⟩ := p
    obtain ⟨d,rfl,hd⟩ := hr h
    have hwhole := he []
    have hpart := hd (rest++(e'++[]))
    rw [List.append_assoc,List.append_assoc,hpart] at hwhole
    have hnil := congrArg Prod.snd (Option.some.inj hwhole)
    simp [hcut] at hnil

end Reader.Local

end Zdeex.Framework
