import Zdeex.Block.CheckQueue

namespace Zdeex.CheckQueue

open Zdeex.Framework

section Notices

variable {T : Type} {check : T → Bool} {q : CCheckQueue T} {ps : List (Place T)} {b : Bool}

@[simp] theorem Place.idle_notify (p : Place T) : p.notify.idle=p.idle := by
  cases p <;> rfl

@[simp] theorem Place.inLoop_notify (p : Place T) : p.notify.inLoop=p.inLoop := by
  cases p <;> rfl

@[simp] theorem Place.holds_notify (p : Place T) : p.notify.holds=p.holds := by
  cases p <;> rfl

@[simp] theorem Place.passes_notify (p : Place T) : p.notify.Passes check ↔ p.Passes check := by
  cases p <;> exact Iff.rfl

@[simp] theorem Place.batched_notify (p : Place T) : p.notify.Batched ↔ p.Batched := by
  cases p <;> exact Iff.rfl

@[simp] theorem Place.notify_notify (p : Place T) : p.notify.notify=p.notify := by
  cases p <;> rfl

theorem accounts_notify : Accounts check q (ps.map Place.notify) b ↔ Accounts check q ps b := by
  have hcomp {β : Type} (f : Place T → β) (hf : ∀p,f p.notify=f p) :
      (ps.map Place.notify).map f=ps.map f := by
    rw [List.map_map]
    exact List.map_congr_left fun p _ => hf p
  have hpasses : (∀p∈ps.map Place.notify,p.Passes check) ↔ ∀p∈ps,p.Passes check := by simp
  constructor
  · rintro ⟨hidle,htotal,htodo,hok⟩
    rw [hcomp _ Place.idle_notify] at hidle
    rw [hcomp _ Place.inLoop_notify] at htotal
    rw [hcomp _ Place.holds_notify] at htodo
    rw [hpasses] at hok
    exact ⟨hidle,htotal,htodo,hok⟩
  · rintro ⟨hidle,htotal,htodo,hok⟩
    rw [← hcomp _ Place.idle_notify] at hidle
    rw [← hcomp _ Place.inLoop_notify] at htotal
    rw [← hcomp _ Place.holds_notify] at htodo
    rw [← hpasses] at hok
    exact ⟨hidle,htotal,htodo,hok⟩

/-- Lists of threads that differ in who was notified. -/
def Alike (ps ps' : List (Place T)) : Prop := ps.map Place.notify=ps'.map Place.notify

theorem Alike.accounts {ps' : List (Place T)} (h : Alike ps ps') (ha : Accounts check q ps b) :
    Accounts check q ps' b := by
  have hsame : ps.map Place.notify=ps'.map Place.notify := h
  rw [← accounts_notify,hsame,accounts_notify] at ha
  exact ha

theorem Alike.batched {ps' : List (Place T)} (h : Alike ps ps') (hb : ∀p∈ps,p.Batched) :
    ∀p∈ps',p.Batched := by
  have hsame : ps.map Place.notify=ps'.map Place.notify := h
  have hall : ∀p∈ps.map Place.notify,p.Batched := by simpa using hb
  rw [hsame] at hall
  simpa using hall

theorem Notified.alike {n : Nat} {ws ws' : List (Place T)} (h : Notified n ws ws') :
    Alike ws ws' := by
  cases h with
  | none => rfl
  | nobody => rfl
  | one before after => simp [Alike,Place.notify]
  | all h => simp [Alike]

end Notices

section Invariant

variable {T : Type} {check : T → Bool} {s s' : Pool T} {es : List (Event T)}
  {e : Option (Event T)}

/-- Each `Wait` returned whether the checks added before it pass, and each new
`CCheckQueueControl` found the queue idle. -/
def Answers (check : T → Bool) : List (Event T) → Prop
  | [] => True
  | .constructed isIdle::es => isIdle=true ∧ Answers check es
  | .added _::es => Answers check es
  | .returned fRet::es => fRet=(pending es).all check ∧ Answers check es

/-- What holds whenever no thread is in a critical section. -/
structure Inv (check : T → Bool) (s : Pool T) (es : List (Event T)) : Prop where
  accounts : Accounts check s.queue (s.master::s.workers) ((pending es).all check)
  batched : ∀p∈s.master::s.workers,p.Batched
  fQuit : s.queue.fQuit=false
  present : s.master≠.interrupted
  free : s.fControl=false → s.master=.outside ∧ pending es=[] ∧ s.queue.nTodo=0
  waits : ∀notified,s.master=.waiting notified →
    s.queue.queue=[] ∧ (notified=false → s.queue.nTodo≠0)
  answers : Answers check es

theorem Inv.master (h : Inv check s es) {m : Moved T}
    (hloop : s.queue.loop check true s.master=some m) :
    Inv check {s with queue := m.queue,fControl := m.fRet.isNone,master := m.place}
      ((m.fRet.map Event.returned).toList++es) := by
  obtain ⟨hp,hbatched⟩ := List.forall_mem_cons.mp h.batched
  have hkept : m.Kept check true s.queue [] s.workers ((pending es).all check) :=
    Accounts.loop h.accounts hp hbatched h.fQuit hloop
  have hbatched' : ∀p∈m.place::s.workers,p.Batched :=
    List.forall_mem_cons.mpr ⟨hkept.batched,hbatched⟩
  have hwaits : ∀notified,m.place=.waiting notified →
      m.queue.queue=[] ∧ (notified=false → m.queue.nTodo≠0) := fun notified hplace =>
    ⟨(hkept.waits notified hplace).1,fun _ => (hkept.waits notified hplace).2 rfl⟩
  cases hret : m.fRet with
  | none =>
    exact ⟨hkept.going hret,hbatched',hkept.fQuit,hkept.present,by simp,hwaits,h.answers⟩
  | some fRet =>
    obtain ⟨-,hanswer,hplace,hzero,haccounts⟩ := hkept.returned fRet hret
    refine ⟨?_,hbatched',hkept.fQuit,hkept.present,fun _ => ⟨hplace,rfl,hzero⟩,hwaits,
      hanswer,h.answers⟩
    rw [hplace]
    exact haccounts

theorem Inv.worker (h : Inv check s es) {m : Moved T} {before after : List (Place T)}
    {w : Place T} (hworkers : s.workers=before++w::after)
    (hloop : s.queue.loop check false w=some m) :
    Inv check
      {s with
        queue := m.queue
        master := if m.notifyMaster then s.master.notify else s.master
        workers := before++m.place::after} es := by
  obtain ⟨haccounts,hbatched,hquit,hpresent,hfree,hwaits,hanswers⟩ := h
  rw [hworkers] at haccounts hbatched
  have hother : ∀p∈(s.master::before)++after,p.Batched := by
    intro p hp
    refine hbatched p ?_
    simp only [List.cons_append,List.mem_cons,List.mem_append] at hp ⊢
    tauto
  have hkept : m.Kept check false s.queue (s.master::before) after ((pending es).all check) :=
    Accounts.loop haccounts (hbatched w (by simp)) hother hquit hloop
  have hret : m.fRet=none := by
    cases hret : m.fRet with
    | none => rfl
    | some fRet => cases (hkept.returned fRet hret).1
  have halike : Alike (s.master::(before++m.place::after))
      ((if m.notifyMaster then s.master.notify else s.master)::(before++m.place::after)) := by
    cases m.notifyMaster <;> simp [Alike]
  refine ⟨halike.accounts (hkept.going hret),halike.batched ?_,hkept.fQuit,?_,?_,?_,hanswers⟩
  · intro p hp
    simp only [List.mem_cons,List.mem_append] at hp
    obtain rfl | hp | rfl | hp := hp
    · exact hbatched _ List.mem_cons_self
    · exact hother p (by simp [hp])
    · exact hkept.batched
    · exact hother p (by simp [hp])
  · cases m.notifyMaster with
    | false => exact hpresent
    | true =>
      change s.master.notify≠_
      cases hm : s.master with
      | interrupted => exact absurd hm hpresent
      | _ => simp [Place.notify]
  · intro hcontrol
    obtain ⟨hmaster,hpending,hzero⟩ := hfree hcontrol
    refine ⟨?_,hpending,?_⟩
    · change (if m.notifyMaster then s.master.notify else s.master)=_
      rw [hmaster]
      cases m.notifyMaster <;> rfl
    · have hless := hkept.less
      change m.queue.nTodo=0
      omega
  · intro notified hplace
    cases hnotify : m.notifyMaster with
    | false =>
      rw [hnotify] at hplace
      obtain ⟨hqueue,htodo⟩ := hwaits notified hplace
      refine ⟨hkept.drained hqueue,fun hnot hzero => ?_⟩
      rcases hkept.told rfl hzero with hold | htold
      · exact htodo hnot hold
      · rw [hnotify] at htold
        cases htold
    | true =>
      rw [hnotify] at hplace
      change s.master.notify=_ at hplace
      cases hm : s.master with
      | waiting before =>
        rw [hm] at hplace
        obtain rfl : true=notified := Place.waiting.inj hplace
        exact ⟨hkept.drained (hwaits _ hm).1,by simp⟩
      | outside => simp [hm,Place.notify] at hplace
      | working nNow fOk vChecks => simp [hm,Place.notify] at hplace
      | interrupted => exact absurd hm hpresent

theorem Inv.scheduled (h : Inv check s es) (hs : Scheduled check s e s') :
    Inv check s' (e.toList++es) := by
  cases hs with
  | master _ hloop => exact h.master hloop
  | worker hworkers hloop => exact h.worker hworkers hloop

/-- A change that only notifies threads. -/
theorem Inv.alike (h : Inv check s es) {master : Place T} {workers : List (Place T)}
    (hmaster : master=s.master ∨ master=s.master.notify) (hworkers : Alike s.workers workers) :
    Inv check {s with master,workers} es := by
  obtain ⟨haccounts,hbatched,hquit,hpresent,hfree,hwaits,hanswers⟩ := h
  have hnotify : master.notify=s.master.notify := by
    rcases hmaster with rfl | rfl <;> simp
  have halike : Alike (s.master::s.workers) (master::workers) := by
    have hsame : s.workers.map Place.notify=workers.map Place.notify := hworkers
    simp [Alike,hnotify,hsame]
  refine ⟨halike.accounts haccounts,halike.batched hbatched,hquit,?_,?_,?_,hanswers⟩
  · rcases hmaster with rfl | rfl
    · exact hpresent
    · cases hm : s.master with
      | interrupted => exact absurd hm hpresent
      | _ => simp [Place.notify]
  · intro hcontrol
    obtain ⟨hm,hpending,hzero⟩ := hfree hcontrol
    refine ⟨?_,hpending,hzero⟩
    rcases hmaster with rfl | rfl
    · exact hm
    · simp [hm,Place.notify]
  · intro notified hplace
    rcases hmaster with rfl | rfl
    · exact hwaits notified hplace
    · cases hm : s.master with
      | waiting before =>
        obtain rfl : true=notified := by simpa [hm,Place.notify] using hplace
        exact ⟨(hwaits _ hm).1,by simp⟩
      | outside => simp [hm,Place.notify] at hplace
      | working nNow fOk vChecks => simp [hm,Place.notify] at hplace
      | interrupted => exact absurd hm hpresent

theorem Inv.added (h : Inv check s es) {vChecks : List T} {workers : List (Place T)}
    (hcontrol : s.fControl=true) (hout : s.master=.outside)
    (hnotified : Notified vChecks.length s.workers workers) :
    Inv check {s with queue := s.queue.add vChecks,workers} (.added vChecks::es) := by
  obtain ⟨hbefore,hbatched,hquit,hpresent,hfree,hwaits,hanswers⟩ :=
    h.alike (.inl rfl) hnotified.alike
  have haccounts : Accounts check s.queue (s.master::workers) ((pending es).all check) := hbefore
  have hqueue : (s.queue.add vChecks).queue=vChecks.reverse++s.queue.queue := by
    simp [CCheckQueue.add]
  refine ⟨?_,hbatched,hquit,hpresent,?_,?_,hanswers⟩
  · obtain ⟨hidle,htotal,htodo,hok⟩ := haccounts
    refine ⟨hidle,htotal,?_,?_⟩
    · rw [hqueue,List.length_append,List.length_reverse]
      change s.queue.nTodo+vChecks.length=_+((s.master::workers).map Place.holds).sum
      omega
    · rw [pending,List.all_append,Bool.and_eq_true,hok,hqueue]
      simp only [List.forall_mem_append,List.mem_reverse,List.all_eq_true]
      change _ ↔ s.queue.fAllOk=true ∧ (∀p∈s.master::workers,p.Passes check) ∧ _
      tauto
  · intro hno
    rw [hcontrol] at hno
    cases hno
  · intro notified hplace
    change s.master=_ at hplace
    rw [hout] at hplace
    cases hplace

theorem Inv.constructed (h : Inv check s es) (hcontrol : s.fControl=false) :
    Inv check {s with fControl := true} (.constructed s.queue.isIdle::es) := by
  obtain ⟨haccounts,hbatched,hquit,hpresent,hfree,hwaits,hanswers⟩ := h
  obtain ⟨-,hpending,hzero⟩ := hfree hcontrol
  obtain ⟨-,htotal,hall,-⟩ := haccounts.quiet hbatched hzero
  refine ⟨haccounts,hbatched,hquit,hpresent,by simp,hwaits,?_,hanswers⟩
  rw [hpending] at hall
  simp [CCheckQueue.isIdle,htotal,hzero,hall]

theorem Inv.step (h : Inv check s es) (hs : Step check s e s') : Inv check s' (e.toList++es) := by
  cases hs with
  | scheduled hs => exact h.scheduled hs
  | constructed hcontrol => exact h.constructed hcontrol
  | added hcontrol hout hnotified => exact h.added hcontrol hout hnotified
  | spuriousMaster => exact h.alike (.inr rfl) rfl
  | spurious hworkers =>
    refine h.alike (.inl rfl) ?_
    rw [hworkers]
    simp [Alike]
  | @interrupted before after notified hworkers =>
    obtain ⟨haccounts,hbatched,hquit,hpresent,hfree,hwaits,hanswers⟩ := h
    rw [hworkers] at haccounts hbatched
    refine ⟨?_,fun p hp => ?_,hquit,hpresent,hfree,hwaits,hanswers⟩
    · have hsplit : Accounts check s.queue ((s.master::before)++.waiting notified::after)
          ((pending es).all check) := haccounts
      have hstopped : Accounts check s.queue ((s.master::before)++.interrupted::after)
          ((pending es).all check) := by
        rw [accounts_iff] at hsplit ⊢
        exact hsplit
      exact hstopped
    · simp only [List.mem_cons,List.mem_append] at hp
      obtain rfl | hp | rfl | hp := hp
      · exact hbatched _ List.mem_cons_self
      · exact hbatched p (by simp [hp])
      · exact trivial
      · exact hbatched p (by simp [hp])

theorem Inv.new (nBatchSizeIn nThreads : Nat) : Inv check (.new nBatchSizeIn nThreads) [] := by
  have hall : ∀p∈(Place.outside : Place T)::List.replicate nThreads .outside,p=.outside := by
    intro p hp
    rcases List.mem_cons.mp hp with rfl | hp
    · rfl
    · exact (List.mem_replicate.mp hp).2
  refine ⟨⟨?_,?_,?_,?_⟩,fun p hp => ?_,rfl,by simp [Pool.new],fun _ => ⟨rfl,rfl,rfl⟩,
    by simp [Pool.new],trivial⟩
  · simp [Pool.new,CCheckQueue.new,Place.idle]
  · simp [Pool.new,CCheckQueue.new,Place.inLoop]
  · simp [Pool.new,CCheckQueue.new,Place.holds]
  · refine iff_of_true rfl ⟨rfl,fun p hp => ?_,by simp [Pool.new,CCheckQueue.new]⟩
    rw [hall p hp]
    exact trivial
  · rw [hall p hp]
    exact trivial

variable {nBatchSizeIn nThreads : Nat}

theorem Run.inv (h : Run check nBatchSizeIn nThreads s es) : Inv check s es := by
  induction h with
  | start => exact .new nBatchSizeIn nThreads
  | step _ hstep ih => exact ih.step hstep

/-- Whatever order the threads run in, the master gets the answer it would have found alone. -/
theorem run_answers (h : Run check nBatchSizeIn nThreads s es) : Answers check es :=
  h.inv.answers

end Invariant

section Progress

variable {T : Type} {check : T → Bool} {q : CCheckQueue T} {p : Place T} {s s' : Pool T}
  {es : List (Event T)} {fMaster : Bool}

/-- How much a thread may still do before it waits. -/
def Place.weight : Place T → Nat
  | .outside => 1
  | .waiting notified => if notified then 2 else 0
  | .working _ _ vChecks => 3+vChecks.length
  | .interrupted => 0

def Pool.weight (s : Pool T) : Nat :=
  5*s.queue.queue.length+((s.master::s.workers).map Place.weight).sum

theorem Place.weight_notify_le (p : Place T) : p.notify.weight≤p.weight+2 := by
  cases p with
  | waiting notified => cases notified <;> simp [Place.notify,Place.weight]
  | outside => simp [Place.notify]
  | working nNow fOk vChecks => simp [Place.notify]
  | interrupted => simp [Place.notify]

theorem CCheckQueue.entered_weight {q' : CCheckQueue T} {notifyMaster : Bool}
    (hentered : q.entered fMaster p=some (q',notifyMaster)) :
    1≤p.weight ∧ (notifyMaster=true → p.weight=3) ∧ (p≠.outside → 2≤p.weight) := by
  cases p with
  | outside =>
    obtain ⟨-,rfl⟩ := Prod.mk.inj (Option.some.inj hentered)
    simp [Place.weight]
  | waiting notified =>
    cases notified with
    | false => cases hentered
    | true =>
      obtain ⟨-,rfl⟩ := Prod.mk.inj (Option.some.inj hentered)
      simp [Place.weight]
  | working nNow fOk vChecks =>
    cases vChecks with
    | cons c cs => cases hentered
    | nil => simp [Place.weight]
  | interrupted => cases hentered

theorem CCheckQueue.loop_weight {m : Moved T} (hquit : q.fQuit=false)
    (hloop : q.loop check fMaster p=some m) (hplace : p=.outside → fMaster=false) :
    5*m.queue.queue.length+m.place.weight+(if m.notifyMaster then 2 else 0)<
      5*q.queue.length+p.weight := by
  obtain ⟨nNow,fOk,c,vChecks,rfl,rfl⟩ | ⟨q',notifyMaster,hentered,rfl⟩ := loop_cases hloop
  · simp [Place.weight]
  · obtain ⟨hqueue,hquit',-,hnotify,-⟩ := entered_frame hentered
    obtain ⟨hone,hthree,htwo⟩ := entered_weight hentered
    have hextra : (if notifyMaster then 2 else 0)+1≤p.weight := by
      cases notifyMaster with
      | false => simpa using hone
      | true => simp [hthree rfl]
    rw [← hqueue]
    generalize p.weight=w at *
    obtain ⟨hnil,hmaster,-,hres⟩ | ⟨hnil,-,hres⟩ | ⟨hpos,hle,hres⟩ :=
      q'.goOn_cases fMaster notifyMaster (hquit'.trans hquit)
    · have hinside : p≠.outside := by
        intro hout
        rw [hplace hout] at hmaster
        cases hmaster
      have hfew := htwo hinside
      have hquiet : notifyMaster=false := by
        by_contra hnot
        rw [hnotify (by simpa using hnot)] at hmaster
        cases hmaster
      rw [hres,hquiet]
      simp only [Place.weight,Bool.false_eq_true,if_false]
      omega
    · rw [hres]
      simp only [Place.weight,Bool.false_eq_true,if_false]
      omega
    · rw [hres]
      simp only [Place.weight,List.length_drop,List.length_take]
      omega

theorem CCheckQueue.loop_ready (q : CCheckQueue T) (check : T → Bool) (fMaster : Bool)
    (hwaiting : p≠.waiting false) (hpresent : p≠.interrupted) :
    ∃m,q.loop check fMaster p=some m := by
  cases p with
  | outside => exact ⟨_,rfl⟩
  | waiting notified =>
    cases notified with
    | false => exact absurd rfl hwaiting
    | true => exact ⟨_,rfl⟩
  | working nNow fOk vChecks => cases vChecks <;> exact ⟨_,rfl⟩
  | interrupted => exact absurd rfl hpresent

/-- While the master waits for the queue, some thread can go on. -/
theorem Inv.progress (h : Inv check s es) (hin : s.master≠.outside) :
    ∃s' e,Scheduled check s e s' := by
  have hcontrol : s.fControl=true := by
    by_contra hno
    exact hin (h.free (by simpa using hno)).1
  by_cases hwaiting : s.master=.waiting false
  · obtain ⟨hqueue,htodo⟩ := h.waits false hwaiting
    have hsum := h.accounts.nTodo
    rw [hqueue,hwaiting] at hsum
    have hbusy : ∃w∈s.workers,w.holds≠0 := by
      by_contra hnone
      have hzero : (s.workers.map Place.holds).sum=0 := by
        refine List.sum_eq_zero_iff_forall_eq_nat.mpr fun n hn => ?_
        obtain ⟨w,hw,rfl⟩ := List.mem_map.mp hn
        by_contra hne
        exact hnone ⟨w,hw,hne⟩
      refine htodo rfl ?_
      rw [hsum]
      simp [Place.holds,hzero]
    obtain ⟨w,hw,hholds⟩ := hbusy
    obtain ⟨before,after,hsplit⟩ := List.append_of_mem hw
    obtain ⟨m,hloop⟩ := s.queue.loop_ready check false (p := w)
      (by rintro rfl; exact hholds rfl) (by rintro rfl; exact hholds rfl)
    exact ⟨_,_,.worker hsplit hloop⟩
  · obtain ⟨m,hloop⟩ := s.queue.loop_ready check true hwaiting h.present
    exact ⟨_,_,.master hcontrol hloop⟩

theorem Inv.scheduled_weight (h : Inv check s es) (hin : s.master≠.outside)
    {e : Option (Event T)} (hs : Scheduled check s e s') : s'.weight<s.weight := by
  cases hs with
  | @master m hcontrol hloop =>
    have hless := CCheckQueue.loop_weight h.fQuit hloop fun hout => absurd hout hin
    simp only [Pool.weight,List.map_cons,List.sum_cons]
    omega
  | @worker before after w m hworkers hloop =>
    have hless := CCheckQueue.loop_weight h.fQuit hloop fun _ => rfl
    have hmaster : (if m.notifyMaster then s.master.notify else s.master).weight≤
        s.master.weight+(if m.notifyMaster then 2 else 0) := by
      cases m.notifyMaster with
      | false => exact Nat.le_refl _
      | true => exact s.master.weight_notify_le
    simp only [Pool.weight,hworkers,List.map_cons,List.map_append,List.sum_cons,List.sum_append]
    omega

/-- `Wait` returns, however the threads are scheduled from then on. -/
theorem wait_returns {nBatchSizeIn nThreads : Nat} (h : Run check nBatchSizeIn nThreads s es) :
    Inevitably (fun s s' => ∃e,Scheduled check s e s') (fun s => s.master=.outside) s := by
  refine Inevitably.of_measure (I := fun s => ∃es,Inv check s es) Pool.weight
    (fun s hs hin => ?_) (fun s s' hs hin hstep => ?_) ⟨es,h.inv⟩
  · obtain ⟨es,hinv⟩ := hs
    exact hinv.progress hin
  · obtain ⟨es,hinv⟩ := hs
    obtain ⟨e,he⟩ := hstep
    exact ⟨⟨_,hinv.scheduled he⟩,hinv.scheduled_weight hin he⟩

end Progress

section Sample

/-- The master adds one check and takes it before its only worker comes. -/
theorem run_taken : Run id 128 1
    ⟨⟨[],0,1,true,1,false,128⟩,true,.working 1 true [true],[.outside]⟩
    [.added [true],.constructed true] :=
  .step (.step (.step .start (.constructed rfl))
    (@Step.added Bool id _ [true] _ rfl rfl (.nobody (by simp [Pool.new,Place.notify]))))
    (.scheduled (.master rfl rfl))

theorem run_answers_taken : Answers id [.returned true,.added [true],.constructed true] := by
  have hreturned : Run id 128 1 ⟨⟨[],0,0,true,0,false,128⟩,false,.outside,[.outside]⟩
      [.returned true,.added [true],.constructed true] :=
    .step (.step run_taken (.scheduled (.master rfl rfl))) (.scheduled (.master rfl rfl))
  exact run_answers hreturned

theorem wait_returns_taken :
    Inevitably (fun s s' => ∃e,Scheduled id s e s') (fun s => s.master=.outside)
      ⟨⟨[],0,1,true,1,false,128⟩,true,.working 1 true [true],[.outside]⟩ :=
  wait_returns run_taken

end Sample

end Zdeex.CheckQueue
