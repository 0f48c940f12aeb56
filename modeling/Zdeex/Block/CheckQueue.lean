import Mathlib.Tactic.ByContra
import Mathlib.Tactic.Ring
import Mathlib.Tactic.Tauto
import Zdeex.Framework.Inevitable

namespace Zdeex.CheckQueue

open Zdeex.Framework

variable {T : Type}

/-- What the mutex guards. The back of `queue` stands first. -/
structure CCheckQueue (T : Type) where
  queue : List T
  nIdle : Int
  nTotal : Int
  fAllOk : Bool
  nTodo : Nat
  fQuit : Bool
  nBatchSize : Nat

/-- Where a thread is in `Loop` while it does not hold the mutex. -/
inductive Place (T : Type)
  | outside
  | waiting (notified : Bool)
  | working (nNow : Nat) (fOk : Bool) (vChecks : List T)
  | interrupted

/-- What comes of a thread that was scheduled; a value in `fRet` is what its `Loop` returned. -/
structure Moved (T : Type) where
  queue : CCheckQueue T
  place : Place T
  notifyMaster : Bool
  fRet : Option Bool

namespace CCheckQueue

def new (nBatchSizeIn : Nat) : CCheckQueue T := ⟨[],0,0,true,0,false,nBatchSizeIn⟩

def isIdle (q : CCheckQueue T) : Bool := q.nTotal=q.nIdle && q.nTodo=0 && q.fAllOk

def add (q : CCheckQueue T) (vChecks : List T) : CCheckQueue T :=
  {q with
    queue := vChecks.foldl (fun queue check => check::queue) q.queue
    nTodo := q.nTodo+vChecks.length}

/-- How many checks to process now. -/
def nNow (q : CCheckQueue T) : Nat :=
  max 1 (min q.nBatchSize (q.queue.length/(q.nTotal+q.nIdle+1).toNat))

/-- The critical section up to the loop on the empty queue, and whether the master is notified. -/
def entered (fMaster : Bool) (q : CCheckQueue T) : Place T → Option (CCheckQueue T × Bool)
  | .outside => some ({q with nTotal := q.nTotal+1},false)
  | .waiting true => some ({q with nIdle := q.nIdle-1},false)
  | .working nNow fOk [] =>
    some ({q with fAllOk := q.fAllOk && fOk,nTodo := q.nTodo-nNow},q.nTodo-nNow=0 && !fMaster)
  | _ => none

/-- The critical section from the loop on the empty queue. -/
def goOn (fMaster : Bool) (q : CCheckQueue T) (notifyMaster : Bool) : Moved T :=
  if q.queue.isEmpty then
    if (fMaster || q.fQuit) && q.nTodo=0 then
      ⟨{q with nTotal := q.nTotal-1,fAllOk := fMaster || q.fAllOk},.outside,notifyMaster,
        some q.fAllOk⟩
    else ⟨{q with nIdle := q.nIdle+1},.waiting false,notifyMaster,none⟩
  else
    ⟨{q with queue := q.queue.drop q.nNow},.working q.nNow q.fAllOk (q.queue.take q.nNow),
      notifyMaster,none⟩

/-- The next thing a thread does in `Loop`: a check of its batch or a critical section. -/
def loop (check : T → Bool) (fMaster : Bool) (q : CCheckQueue T) : Place T → Option (Moved T)
  | .working nNow fOk (c::vChecks) =>
    some ⟨q,.working nNow (if fOk then check c else fOk) vChecks,false,none⟩
  | place => (q.entered fMaster place).map fun found => found.1.goOn fMaster found.2

end CCheckQueue

def Place.notify : Place T → Place T
  | .waiting _ => .waiting true
  | place => place

/-- The threads with the queue they share; `fControl` is set while the master has a
`CCheckQueueControl`. -/
structure Pool (T : Type) where
  queue : CCheckQueue T
  fControl : Bool
  master : Place T
  workers : List (Place T)

def Pool.new (nBatchSizeIn nThreads : Nat) : Pool T :=
  ⟨.new nBatchSizeIn,false,.outside,List.replicate nThreads .outside⟩

/-- What `Add` does to the threads that wait on `condWorker`. -/
inductive Notified : Nat → List (Place T) → List (Place T) → Prop
  | none (workers : List (Place T)) : Notified 0 workers workers
  | nobody {workers : List (Place T)} : (∀w∈workers,w.notify=w) → Notified 1 workers workers
  | one (before after : List (Place T)) :
      Notified 1 (before++.waiting false::after) (before++.waiting true::after)
  | all {n : Nat} (workers : List (Place T)) : 1<n → Notified n workers (workers.map Place.notify)

/-- What the master sees of the queue. -/
inductive Event (T : Type)
  | constructed (isIdle : Bool)
  | added (vChecks : List T)
  | returned (fRet : Bool)

/-- One thread is scheduled in `Loop`. -/
inductive Scheduled (check : T → Bool) : Pool T → Option (Event T) → Pool T → Prop
  | master {s : Pool T} {m : Moved T} : s.fControl=true →
      s.queue.loop check true s.master=some m →
      Scheduled check s (m.fRet.map .returned)
        {s with queue := m.queue,fControl := m.fRet.isNone,master := m.place}
  | worker {s : Pool T} {before after : List (Place T)} {w : Place T} {m : Moved T} :
      s.workers=before++w::after → s.queue.loop check false w=some m →
      Scheduled check s none
        {s with
          queue := m.queue
          master := if m.notifyMaster then s.master.notify else s.master
          workers := before++m.place::after}

/-- The steps of the master outside `Loop`, and what may happen to a thread that waits. -/
inductive Step (check : T → Bool) : Pool T → Option (Event T) → Pool T → Prop
  | scheduled {s s' : Pool T} {e : Option (Event T)} : Scheduled check s e s' → Step check s e s'
  | constructed {s : Pool T} : s.fControl=false →
      Step check s (some (.constructed s.queue.isIdle)) {s with fControl := true}
  | added {s : Pool T} {vChecks : List T} {workers : List (Place T)} : s.fControl=true →
      s.master=.outside → Notified vChecks.length s.workers workers →
      Step check s (some (.added vChecks)) {s with queue := s.queue.add vChecks,workers}
  | spuriousMaster {s : Pool T} : Step check s none {s with master := s.master.notify}
  | spurious {s : Pool T} {before after : List (Place T)} {w : Place T} :
      s.workers=before++w::after → Step check s none {s with workers := before++w.notify::after}
  | interrupted {s : Pool T} {before after : List (Place T)} {notified : Bool} :
      s.workers=before++.waiting notified::after →
      Step check s none {s with workers := before++.interrupted::after}

/-- What a run of any number of threads, and what the master saw in it, the last first. -/
inductive Run (check : T → Bool) (nBatchSizeIn nThreads : Nat) :
    Pool T → List (Event T) → Prop
  | start : Run check nBatchSizeIn nThreads (.new nBatchSizeIn nThreads) []
  | step {s s' : Pool T} {es : List (Event T)} {e : Option (Event T)} :
      Run check nBatchSizeIn nThreads s es → Step check s e s' →
      Run check nBatchSizeIn nThreads s' (e.toList++es)

/-- The checks added since `Wait` returned last. -/
def pending : List (Event T) → List T
  | [] => []
  | .constructed _::es => pending es
  | .added vChecks::es => vChecks++pending es
  | .returned _::_ => []

section Accounts

variable {check : T → Bool} {q : CCheckQueue T} {before after ps : List (Place T)} {p : Place T}
  {b fMaster notifyMaster : Bool}

namespace Place

def idle : Place T → Int
  | .waiting _ => 1
  | .interrupted => 1
  | _ => 0

def inLoop : Place T → Int
  | .outside => 0
  | _ => 1

/-- How much of `nTodo` a thread stands for. -/
def holds : Place T → Nat
  | .working nNow _ _ => nNow
  | _ => 0

/-- Nothing a thread has still to tell makes the answer false. -/
def Passes (check : T → Bool) : Place T → Prop
  | .working _ fOk vChecks => fOk=true ∧ ∀c∈vChecks,check c=true
  | _ => True

/-- No batch is empty. -/
def Batched : Place T → Prop
  | .working nNow _ _ => 0<nNow
  | _ => True

end Place

/-- The counters count the threads and the checks, and `b` is the answer they lead to. -/
structure Accounts (check : T → Bool) (q : CCheckQueue T) (ps : List (Place T)) (b : Bool) :
    Prop where
  nIdle : q.nIdle=(ps.map Place.idle).sum
  nTotal : q.nTotal=(ps.map Place.inLoop).sum
  nTodo : q.nTodo=q.queue.length+(ps.map Place.holds).sum
  fAllOk : b=true ↔
    q.fAllOk=true ∧ (∀p∈ps,p.Passes check) ∧ ∀c∈q.queue,check c=true

/-- The accounts with one thread set apart. -/
theorem accounts_iff : Accounts check q (before++p::after) b ↔
    q.nIdle=p.idle+((before++after).map Place.idle).sum ∧
    q.nTotal=p.inLoop+((before++after).map Place.inLoop).sum ∧
    q.nTodo=q.queue.length+(p.holds+((before++after).map Place.holds).sum) ∧
    (b=true ↔ q.fAllOk=true ∧ p.Passes check ∧ (∀r∈before++after,r.Passes check) ∧
      ∀c∈q.queue,check c=true) := by
  have hpasses : (∀r∈before++p::after,r.Passes check) ↔
      p.Passes check ∧ ∀r∈before++after,r.Passes check := by
    simp only [List.forall_mem_append,List.forall_mem_cons]
    tauto
  constructor
  · rintro ⟨hidle,htotal,htodo,hok⟩
    rw [hpasses,and_assoc] at hok
    simp only [List.map_append,List.map_cons,List.sum_append,List.sum_cons] at hidle htotal htodo ⊢
    exact ⟨by omega,by omega,by omega,hok⟩
  · rintro ⟨hidle,htotal,htodo,hok⟩
    simp only [List.map_append,List.sum_append] at hidle htotal htodo
    constructor
    · simp only [List.map_append,List.map_cons,List.sum_append,List.sum_cons]
      omega
    · simp only [List.map_append,List.map_cons,List.sum_append,List.sum_cons]
      omega
    · simp only [List.map_append,List.map_cons,List.sum_append,List.sum_cons]
      omega
    · rw [hpasses,and_assoc]
      exact hok

/-- With nothing left to do no thread holds a check, and the answer is known. -/
theorem Accounts.quiet (h : Accounts check q ps b) (hbatched : ∀p∈ps,p.Batched)
    (hzero : q.nTodo=0) :
    q.queue=[] ∧ q.nIdle=q.nTotal ∧ q.fAllOk=b ∧ ∀p∈ps,p.Passes check := by
  have hsum := h.nTodo
  have hqueue : q.queue=[] := List.length_eq_zero_iff.mp (by omega)
  have hholds : ∀n∈ps.map Place.holds,n=0 :=
    List.sum_eq_zero_iff_forall_eq_nat.mp (by omega)
  have hfree : ∀p∈ps,p.idle=p.inLoop ∧ p.Passes check := by
    intro p hp
    have hb := hbatched p hp
    have hz := hholds _ (List.mem_map_of_mem hp)
    cases p with
    | outside => exact ⟨rfl,trivial⟩
    | waiting notified => exact ⟨rfl,trivial⟩
    | working nNow fOk vChecks => exact absurd hz (Nat.ne_of_gt hb)
    | interrupted => exact ⟨rfl,trivial⟩
  refine ⟨hqueue,?_,?_,fun p hp => (hfree p hp).2⟩
  · rw [h.nIdle,h.nTotal,List.map_congr_left fun p hp => (hfree p hp).1]
  · rw [Bool.eq_iff_iff,h.fAllOk,hqueue]
    exact ⟨fun hok => ⟨hok,fun p hp => (hfree p hp).2,by simp⟩,fun hok => hok.1⟩

/-- What a thread stands for while it holds the mutex. -/
def inSection : Place T := .working 0 true []

theorem CCheckQueue.entered_frame {q' : CCheckQueue T}
    (hentered : q.entered fMaster p=some (q',notifyMaster)) :
    q'.queue=q.queue ∧ q'.fQuit=q.fQuit ∧ q'.nTodo≤q.nTodo ∧
      (notifyMaster=true → fMaster=false) ∧
      (fMaster=false → q'.nTodo=0 → q.nTodo=0 ∨ notifyMaster=true) := by
  cases p with
  | outside =>
    obtain ⟨rfl,rfl⟩ := Prod.mk.inj (Option.some.inj hentered)
    simp
  | waiting notified =>
    cases notified with
    | false => cases hentered
    | true =>
      obtain ⟨rfl,rfl⟩ := Prod.mk.inj (Option.some.inj hentered)
      simp
  | working nNow fOk vChecks =>
    cases vChecks with
    | cons c cs => cases hentered
    | nil =>
      obtain ⟨rfl,rfl⟩ := Prod.mk.inj (Option.some.inj hentered)
      refine ⟨rfl,rfl,Nat.sub_le _ _,by simp,fun hmaster hzero => .inr ?_⟩
      simp [hmaster,show q.nTodo-nNow=0 from hzero]
  | interrupted => cases hentered

/-- On entering the critical section a thread tells what it did since the last one. -/
theorem Accounts.entered {q' : CCheckQueue T} (h : Accounts check q (before++p::after) b)
    (hentered : q.entered fMaster p=some (q',notifyMaster)) :
    Accounts check q' (before++inSection::after) b := by
  rw [accounts_iff] at h ⊢
  obtain ⟨hidle,htotal,htodo,hok⟩ := h
  cases p with
  | outside =>
    obtain ⟨rfl,-⟩ := Prod.mk.inj (Option.some.inj hentered)
    simp only [Place.idle,Place.inLoop,Place.holds,inSection] at *
    refine ⟨hidle,by omega,htodo,?_⟩
    simpa [Place.Passes] using hok
  | waiting notified =>
    cases notified with
    | false => cases hentered
    | true =>
      obtain ⟨rfl,-⟩ := Prod.mk.inj (Option.some.inj hentered)
      simp only [Place.idle,Place.inLoop,Place.holds,inSection] at *
      refine ⟨by omega,htotal,htodo,?_⟩
      simpa [Place.Passes] using hok
  | working nNow fOk vChecks =>
    cases vChecks with
    | cons c cs => cases hentered
    | nil =>
      obtain ⟨rfl,-⟩ := Prod.mk.inj (Option.some.inj hentered)
      simp only [Place.idle,Place.inLoop,Place.holds,inSection] at *
      refine ⟨hidle,htotal,by omega,?_⟩
      simpa [Place.Passes,and_assoc] using hok
  | interrupted => cases hentered

/-- How a critical section ends. -/
theorem CCheckQueue.goOn_cases (q : CCheckQueue T) (fMaster notifyMaster : Bool)
    (hquit : q.fQuit=false) :
    (q.queue=[] ∧ fMaster=true ∧ q.nTodo=0 ∧ q.goOn fMaster notifyMaster=
      ⟨{q with nTotal := q.nTotal-1,fAllOk := true},.outside,notifyMaster,some q.fAllOk⟩) ∨
    (q.queue=[] ∧ (fMaster=true → q.nTodo≠0) ∧ q.goOn fMaster notifyMaster=
      ⟨{q with nIdle := q.nIdle+1},.waiting false,notifyMaster,none⟩) ∨
    (0<q.nNow ∧ q.nNow≤q.queue.length ∧ q.goOn fMaster notifyMaster=
      ⟨{q with queue := q.queue.drop q.nNow},
        .working q.nNow q.fAllOk (q.queue.take q.nNow),notifyMaster,none⟩) := by
  unfold goOn
  by_cases hqueue : q.queue=[]
  · rw [hquit,Bool.or_false,hqueue,List.isEmpty_nil,if_pos rfl]
    by_cases hlast : fMaster=true ∧ q.nTodo=0
    · obtain ⟨rfl,hzero⟩ := hlast
      rw [if_pos (by simp [hzero])]
      exact .inl ⟨rfl,rfl,hzero,rfl⟩
    · rw [if_neg (by simpa using hlast)]
      exact .inr (.inl ⟨rfl,fun hmaster hzero => hlast ⟨hmaster,hzero⟩,rfl⟩)
  · have hpos := List.length_pos_iff.mpr hqueue
    have hdiv := Nat.div_le_self q.queue.length (q.nTotal+q.nIdle+1).toNat
    rw [if_neg (by simpa using hqueue)]
    refine .inr (.inr ⟨?_,?_,rfl⟩)
    · rw [nNow]
      omega
    · rw [nNow]
      omega

/-- What a scheduled thread keeps; the answer is given away only where nothing is left that
could change it. -/
structure Moved.Kept (check : T → Bool) (fMaster : Bool) (q : CCheckQueue T)
    (before after : List (Place T)) (b : Bool) (m : Moved T) : Prop where
  fQuit : m.queue.fQuit=false
  batched : m.place.Batched
  present : m.place≠.interrupted
  drained : q.queue=[] → m.queue.queue=[]
  waits : ∀notified,m.place=.waiting notified →
    m.queue.queue=[] ∧ (fMaster=true → m.queue.nTodo≠0)
  less : m.queue.nTodo≤q.nTodo
  told : fMaster=false → m.queue.nTodo=0 → q.nTodo=0 ∨ m.notifyMaster=true
  going : m.fRet=none → Accounts check m.queue (before++m.place::after) b
  returned : ∀fRet,m.fRet=some fRet → fMaster=true ∧ fRet=b ∧ m.place=.outside ∧
    m.queue.nTodo=0 ∧ Accounts check m.queue (before++.outside::after) true

theorem Accounts.goOn {q₀ : CCheckQueue T} (h : Accounts check q (before++inSection::after) b)
    (hbatched : ∀r∈before++after,r.Batched) (hquit : q.fQuit=false) (hsame : q.queue=q₀.queue)
    (hless : q.nTodo≤q₀.nTodo)
    (htold : fMaster=false → q.nTodo=0 → q₀.nTodo=0 ∨ notifyMaster=true) :
    (q.goOn fMaster notifyMaster).Kept check fMaster q₀ before after b := by
  obtain ⟨hidle,htotal,htodo,hall⟩ := accounts_iff.mp h
  have hin : (inSection : Place T).Passes check := ⟨rfl,by simp⟩
  have hok : b=true ↔ q.fAllOk=true ∧ (∀r∈before++after,r.Passes check) ∧
      ∀c∈q.queue,check c=true := by simpa only [hin,true_and] using hall
  simp only [Place.idle,Place.inLoop,Place.holds,inSection] at hidle htotal htodo
  obtain ⟨hqueue,hmaster,hzero,hres⟩ | ⟨hqueue,hleft,hres⟩ | ⟨hpos,hle,hres⟩ :=
    q.goOn_cases fMaster notifyMaster hquit
  · have hleave : Accounts check {q with nTotal := q.nTotal-1} (before++after) b := by
      refine ⟨?_,?_,?_,?_⟩
      · change q.nIdle=_
        omega
      · change q.nTotal-1=_
        omega
      · change q.nTodo=q.queue.length+_
        omega
      · exact hok
    obtain ⟨-,-,hall,hpasses⟩ := hleave.quiet hbatched hzero
    have hdone : Accounts check {q with nTotal := q.nTotal-1,fAllOk := true}
        (before++.outside::after) true := by
      refine accounts_iff.mpr ⟨?_,?_,?_,?_⟩
      · simpa [Place.idle] using hidle
      · simp only [Place.inLoop]
        omega
      · simpa [Place.holds] using htodo
      · rw [hqueue]
        exact ⟨fun _ => ⟨rfl,trivial,hpasses,by simp⟩,fun _ => rfl⟩
    rw [hres]
    refine ⟨hquit,trivial,by simp,fun _ => hqueue,by simp,hless,fun hm => ?_,by simp,?_⟩
    · rw [hmaster] at hm
      cases hm
    · intro fRet hret
      obtain rfl := Option.some.inj hret
      exact ⟨hmaster,hall,rfl,hzero,hdone⟩
  · rw [hres]
    refine ⟨hquit,trivial,by simp,fun _ => hqueue,fun _ _ => ⟨hqueue,hleft⟩,
      hless,htold,fun _ => ?_,by simp⟩
    refine accounts_iff.mpr ⟨?_,?_,?_,?_⟩
    · simp only [Place.idle]
      omega
    · simpa [Place.inLoop] using htotal
    · simpa [Place.holds] using htodo
    · simpa only [Place.Passes,true_and] using hok
  · rw [hres]
    refine ⟨hquit,hpos,by simp,fun hnil => ?_,by simp,hless,htold,fun _ => ?_,by simp⟩
    · simp [hsame,hnil]
    · refine accounts_iff.mpr ⟨?_,?_,?_,?_⟩
      · simpa [Place.idle] using hidle
      · simpa [Place.inLoop] using htotal
      · simp only [Place.holds,List.length_drop]
        omega
      · have hparts : (∀c∈q.queue,check c=true) ↔
            (∀c∈q.queue.take q.nNow,check c=true) ∧ ∀c∈q.queue.drop q.nNow,check c=true := by
          rw [← List.forall_mem_append,List.take_append_drop]
        rw [hok,hparts]
        simp only [Place.Passes]
        tauto

theorem CCheckQueue.loop_cases {m : Moved T} (hloop : q.loop check fMaster p=some m) :
    (∃nNow fOk c vChecks,p=.working nNow fOk (c::vChecks) ∧
      m=⟨q,.working nNow (if fOk then check c else fOk) vChecks,false,none⟩) ∨
    ∃q' notifyMaster,q.entered fMaster p=some (q',notifyMaster) ∧
      m=q'.goOn fMaster notifyMaster := by
  have hother (h : (q.entered fMaster p).map (fun found => found.1.goOn fMaster found.2)=some m) :
      ∃q' notifyMaster,q.entered fMaster p=some (q',notifyMaster) ∧
        m=q'.goOn fMaster notifyMaster := by
    obtain ⟨found,hfound,rfl⟩ := Option.map_eq_some_iff.mp h
    exact ⟨found.1,found.2,hfound,rfl⟩
  cases p with
  | outside => exact .inr (hother hloop)
  | waiting notified => exact .inr (hother hloop)
  | working nNow fOk vChecks =>
    cases vChecks with
    | nil => exact .inr (hother hloop)
    | cons c vChecks => exact .inl ⟨nNow,fOk,c,vChecks,rfl,(Option.some.inj hloop).symm⟩
  | interrupted => exact .inr (hother hloop)

theorem Accounts.loop {m : Moved T} (h : Accounts check q (before++p::after) b)
    (hp : p.Batched) (hbatched : ∀r∈before++after,r.Batched) (hquit : q.fQuit=false)
    (hloop : q.loop check fMaster p=some m) : m.Kept check fMaster q before after b := by
  obtain ⟨nNow,fOk,c,vChecks,rfl,rfl⟩ | ⟨q',notifyMaster,hentered,rfl⟩ :=
    CCheckQueue.loop_cases hloop
  · refine ⟨hquit,hp,by simp,id,by simp,Nat.le_refl _,fun _ hz => .inl hz,fun _ => ?_,by simp⟩
    obtain ⟨hidle,htotal,htodo,hok⟩ := accounts_iff.mp h
    refine accounts_iff.mpr ⟨hidle,htotal,htodo,?_⟩
    rw [hok]
    cases fOk <;> simp [Place.Passes,and_assoc]
  · obtain ⟨hqueue,hquit',hless,-,htold⟩ := CCheckQueue.entered_frame hentered
    exact (h.entered hentered).goOn hbatched (hquit'.trans hquit) hqueue hless htold

end Accounts

end Zdeex.CheckQueue
