import Jetmon.Escalation
import Jetmon.SiteLedger
import Jetmon.SystemModel
import Jetmon.WorkerFlags

/-! The objects of the whole system. They are queued by the master, on their way to a worker,
or held by it, and a step makes no second one of any of them. -/
namespace SiteFlow

open SiteModel
open TransitionSystem
open MasterState
open MasterDispatch
open MasterChannels
open SiteLedger
open WorkerState
open WorkerQueue
open WorkerFlags
open Escalation hiding answer
open SystemModel

/-- What the worker has not reported: the sites it has not started, and those it has. -/
def held (w : Worker) : Multiset Site :=
  ↑(w.arrCheck.drop w.pointer) + ↑(w.outstanding.map Outstanding.site)

def completed (w : Worker) : WorkerState.Event → List Site
  | .complete k _ _ => (w.outstanding.map Outstanding.site)[k]?.toList
  | _ => []

theorem finish_held (q : BoundedQueue.State Site) {k : ℕ} (hk : k < q.active.length) :
    (↑(q.active.eraseIdx k) + ↑q.active[k]?.toList : Multiset Site) = ↑q.active := by
  rw [Multiset.coe_add, Multiset.coe_eq_coe]
  exact ((BoundedQueue.perm_finish q.active hk).trans List.perm_append_comm).symm

theorem start_held (q : BoundedQueue.State Site) :
    (↑(BoundedQueue.next q .start).waiting + ↑(BoundedQueue.next q .start).active : Multiset Site) =
      ↑q.waiting + ↑q.active := by
  cases hw : q.waiting with
  | nil => simp [BoundedQueue.next, hw]
  | cons job rest =>
    simp only [BoundedQueue.next, hw, ← Multiset.coe_add, coe_cons_eq, Multiset.coe_singleton]
    abel

theorem starts_held (n : ℕ) (q : BoundedQueue.State Site) :
    (↑((BoundedQueue.machine Site).exec q (List.replicate n .start)).waiting +
      ↑((BoundedQueue.machine Site).exec q (List.replicate n .start)).active : Multiset Site) =
        ↑q.waiting + ↑q.active := by
  induction n generalizing q with
  | zero => rfl
  | succ n ih => exact (ih _).trans (start_held q)

theorem handle_held {w : Worker} {e : WorkerState.Event} (hst : Status w)
    (he : WorkerState.Enabled w e) :
    held (WorkerState.handle w e).1 + ↑(completed w e) = held w + ↑(brought e) := by
  have hq := answer_commutes hst he
  have hheld : held (WorkerState.handle w e).1 =
      ↑((BoundedQueue.machine Site).exec (abstraction w) (answer w e)).waiting +
        ↑((BoundedQueue.machine Site).exec (abstraction w) (answer w e)).active := by
    rw [← hq]
    rfl
  rw [hheld]
  cases e with
  | queueAdd payload =>
    simp only [answer, completed, brought, Machine.exec, BoundedQueue.machine, BoundedQueue.next,
      abstraction, held, ← Multiset.coe_add, Multiset.coe_nil]
    abel
  | checkTimer now =>
    exact congrArg (· + 0) (starts_held _ (abstraction w))
  | complete k now res =>
    have hk : k < (abstraction w).active.length := by simpa [abstraction] using he.2
    have hfinish := finish_held (abstraction w) hk
    have hnext : ∀ es, es = [] ∨ es = [.start] →
        (↑((BoundedQueue.machine Site).exec (abstraction w) (.finish k :: es)).waiting +
          ↑((BoundedQueue.machine Site).exec (abstraction w) (.finish k :: es)).active :
            Multiset Site) = ↑(abstraction w).waiting + ↑((abstraction w).active.eraseIdx k) := by
      rintro es (rfl | rfl)
      · rfl
      · exact start_held _
    have hanswer := hnext (if w.pointer < w.arrCheck.length then [.start] else []) (by
      split
      · exact Or.inr rfl
      · exact Or.inl rfl)
    simp only [answer, completed, brought, hanswer, Multiset.coe_nil, add_zero]
    rw [add_assoc]
    exact congrArg (_ + ·) hfinish
  | evaporate | configUpdate | startup | totalsTick | statsTick => rfl

def subject : ToMaster → Option Site
  | .recheck server | .notifyStatusChange server | .notifyStillDown server => some server
  | .totals _ | .stopWork | .sendWork | .stats _ _ => none

/-- A worker reports the object whose result came in, and no other. -/
inductive Says (w : Worker) (we : WorkerState.Event) (msg : ToMaster) : Prop where
  | aside : subject msg = none → Says w we msg
  | result {k now res o} : we = .complete k now res → w.outstanding[k]? = some o →
      msg ∈ statusMessages (w.applyResult now o.since res o.site) → Says w we msg

theorem statusMessages_subjects (server : Site) :
    (statusMessages server).filterMap subject = [] ∨
      (statusMessages server).filterMap subject = [server] := by
  unfold statusMessages
  split
  · split <;> exact Or.inr rfl
  · exact Or.inl rfl

theorem outcome_subjects {w : Worker} {rss : ℤ} {f : Flags} {extra : List ToMaster}
    (h : Outcome w rss f extra) : ∀ msg ∈ extra, subject msg = none := by
  intro msg hmsg
  rcases h.requests msg hmsg with rfl | rfl <;> rfl

theorem handle_says {w : Worker} {we : WorkerState.Event} (hst : Status w)
    (he : WorkerState.Enabled w we) : ∀ msg ∈ (WorkerState.handle w we).2, Says w we msg := by
  intro msg hmsg
  cases we with
  | queueAdd | configUpdate | checkTimer => contradiction
  | evaporate =>
    simp only [WorkerState.handle] at hmsg
    split at hmsg <;> contradiction
  | complete k now res =>
    have hk := List.getElem?_eq_getElem he.2
    obtain ⟨extra, hmsgs, ho⟩ := complete_outcome (hst.1 he.1) he.1 hk now res
    rw [hmsgs] at hmsg
    rcases List.mem_append.mp hmsg with hmsg | hmsg
    · exact .result rfl hk hmsg
    · exact .aside (outcome_subjects ho msg hmsg)
  | startup | statsTick =>
    rw [List.mem_singleton.mp hmsg]
    exact .aside rfl
  | totalsTick =>
    simp only [WorkerState.handle, Worker.sendStats] at hmsg
    split at hmsg
    · rw [List.mem_singleton.mp hmsg]
      exact .aside rfl
    · contradiction

theorem handle_subjects {w : Worker} {we : WorkerState.Event} (hst : Status w)
    (he : WorkerState.Enabled w we) : (WorkerState.handle w we).2.filterMap subject = [] ∨
      ∃ k now res o, we = .complete k now res ∧ w.outstanding[k]? = some o ∧
        (WorkerState.handle w we).2.filterMap subject = [w.applyResult now o.since res o.site] := by
  have hquiet : (∀ k now res, we ≠ .complete k now res) →
      (WorkerState.handle w we).2.filterMap subject = [] := by
    intro hne
    rw [List.filterMap_eq_nil_iff]
    intro msg hmsg
    cases handle_says hst he msg hmsg with
    | aside hnone => exact hnone
    | result hwe => exact absurd hwe (hne _ _ _)
  cases we with
  | complete k now res =>
    obtain ⟨o, hk⟩ : ∃ o, w.outstanding[k]? = some o := ⟨_, List.getElem?_eq_getElem he.2⟩
    obtain ⟨extra, hmsgs, ho⟩ := complete_outcome (hst.1 he.1) he.1 hk now res
    have hextra := List.filterMap_eq_nil_iff.mpr (outcome_subjects ho)
    rw [hmsgs, List.filterMap_append, hextra, List.append_nil]
    rcases statusMessages_subjects (w.applyResult now o.since res o.site) with h | h
    · exact Or.inl h
    · exact Or.inr ⟨k, now, res, o, rfl, hk, h⟩
  | queueAdd | evaporate | configUpdate | checkTimer | startup | totalsTick | statsTick =>
    exact Or.inl (hquiet nofun)

def pipeSites (m : Master) (p : Pid) : List Site := (m.pipe p).flatMap ToWorker.sites

def queue (m : Master) : Multiset Site := ↑m.arrObjects + ↑m.localRetries

theorem pipeSites_work (m : Master) (p : Pid) :
    pipeSites m p = (work m p).flatMap ToWorker.sites := by
  rw [pipeSites, work]
  induction m.pipe p with
  | nil => rfl
  | cons msg rest ih =>
    cases msg with
    | queueAdd payload => rw [List.filter_cons_of_pos rfl, List.flatMap_cons, List.flatMap_cons, ih]
    | evaporate | configUpdate => exact ih

theorem handle_pipe (m : Master) (e : MasterState.Event) (p : Pid) :
    work m p <+: work (MasterState.handle m e) p ∨ (MasterState.handle m e).pipe p = [] := by
  have hsilent : Silent m (MasterState.handle m e) →
      work m p <+: work (MasterState.handle m e) p ∨ (MasterState.handle m e).pipe p = [] := by
    intro h
    rcases h.pipe p with hp | hp
    · exact Or.inl (by rw [work_congr hp])
    · exact Or.inr hp
  by_cases hb : Bystander p e
  · obtain ⟨msgs, hl, _⟩ := handle_link m hb
    refine Or.inl ⟨msgs.filter isWork, ?_⟩
    rw [work, work, hl.pipe, List.filter_append]
  · cases e with
    | message q msg =>
      cases msg with
      | stopWork => exact hsilent (stopWork_silent q m)
      | totals | recheck | notifyStatusChange | notifyStillDown | sendWork | stats =>
        exact absurd trivial hb
    | workerExit q code fresh => exact hsilent (workerExit_silent q code fresh m)
    | ensureWorkerCount fresh => exact hsilent (ensureWorkerCount_silent fresh m)
    | wait | reload | queryDone | roundTimer | restartTimer | updateStats | processQueuedRetries
    | hostStatus => exact absurd trivial hb

theorem pipeSites_le (m : Master) (e : MasterState.Event) (p : Pid) :
    (pipeSites (MasterState.handle m e) p : Multiset Site) ≤
      ↑(pipeSites m p) + ↑((payloads m e p).flatMap ToWorker.sites) := by
  rcases handle_pipe m e p with ⟨more, hmore⟩ | hnil
  · rw [pipeSites_work, pipeSites_work, payloads, ← hmore, List.drop_left, List.flatMap_append,
      Multiset.coe_add]
  · rw [pipeSites, hnil]
    exact Multiset.zero_le _

theorem handle_queue {m : Master} (ha : Apart m) (e : MasterState.Event) (F : Finset Pid) :
    queue (MasterState.handle m e) + ∑ p ∈ F, ↑(pipeSites (MasterState.handle m e) p) ≤
      queue m + ↑(received m e) + ∑ p ∈ F, (pipeSites m p : Multiset Site) := by
  have hstep := step_conserves (e := e) ha
  obtain ⟨en, ds, hbooked⟩ := handle_booked (e := e) ha
  have hsent : ∑ p ∈ F, ((payloads m e p).flatMap ToWorker.sites : Multiset Site) ≤
      sentSites m e := by
    have hall := sum_payloadsTo (F ∪ m.arrWorkers.toFinset) ds fun d hd =>
      Finset.mem_union_right _ (List.mem_toFinset.mpr (hbooked.routed d hd).2.1)
    rw [hbooked.sentSites, ← dispatched_split, ← hall]
    refine (Finset.sum_le_sum_of_subset Finset.subset_union_left).trans_eq' ?_
    exact Finset.sum_congr rfl fun p _ => by rw [hbooked.sent p]
  calc queue (MasterState.handle m e) + ∑ p ∈ F, ↑(pipeSites (MasterState.handle m e) p)
      ≤ queue (MasterState.handle m e) + ∑ p ∈ F,
          (↑(pipeSites m p) + ↑((payloads m e p).flatMap ToWorker.sites)) := by
        gcongr with p _
        exact pipeSites_le m e p
    _ = queue (MasterState.handle m e) + ∑ p ∈ F, ↑((payloads m e p).flatMap ToWorker.sites) +
          ∑ p ∈ F, (pipeSites m p : Multiset Site) := by
        rw [Finset.sum_add_distrib]
        abel
    _ ≤ queue (MasterState.handle m e) + sentSites m e +
          ∑ p ∈ F, (pipeSites m p : Multiset Site) := by gcongr
    _ = queue m + ↑(received m e) + ∑ p ∈ F, (pipeSites m p : Multiset Site) := by
        rw [queue, queue, ← hstep]

def heldBy : Option Process → Multiset Site
  | some x => held x.worker
  | none => 0

def lane (s : System) (p : Pid) : Multiset Site := ↑(pipeSites s.master p) + heldBy (s.processes p)

/-- The objects that are to be checked, as far as the workers in `F` have them. -/
def stock (F : Finset Pid) (s : System) : Multiset Site := queue s.master + ∑ p ∈ F, lane s p

def taken (s : System) : SystemModel.Event → List Site
  | .master me _ => received s.master me
  | .hear q => (s.toMaster q).head?.toList.flatMap fun msg => received s.master (.message q msg)
  | .deliver _ _ _ | .worker _ _ | .crash _ _ => []

def reported (s : System) : SystemModel.Event → List Site
  | .worker q we => (s.processes q).toList.flatMap fun x => completed x.worker we
  | .master _ _ | .hear _ | .deliver _ _ _ | .crash _ _ => []

def actor : SystemModel.Event → Finset Pid
  | .worker q _ => {q}
  | .master _ _ | .hear _ | .deliver _ _ _ | .crash _ _ => ∅

theorem stock_mono {F G : Finset Pid} (h : F ⊆ G) (s : System) : stock F s ≤ stock G s := by
  unfold stock
  gcongr

variable {s : System} {e : SystemModel.Event}

theorem reachable_apart {C : System → SystemModel.Event → Prop}
    (hr : Reachable SystemModel.machine C s) : Apart s.master := by
  refine reachable_invariant (I := fun s => Apart s.master) ?_ ?_ hr
  · rintro s ⟨cfg, now, rfl⟩
    exact fun p hp => absurd hp List.not_mem_nil
  · intro s e _ h he _
    change Apart (SystemModel.next s e).master
    cases next_ran he with
    | own hm | heard _ hm =>
      rw [hm]
      exact handle_apart h
    | idle _ hm =>
      rw [hm]
      exact h

theorem held_boot (cfg : Config) (host : String) (now seed : ℤ) :
    held (Worker.boot cfg host now seed) = 0 := rfl

theorem master_stock {s' : System} {me : MasterState.Event} (ha : Apart s.master)
    (hm : s'.master = MasterState.handle s.master me)
    (hp : ∀ p, heldBy (s'.processes p) ≤ heldBy (s.processes p)) (F : Finset Pid) :
    stock F s' ≤ stock F s + ↑(received s.master me) := by
  have hqueue := handle_queue ha me F
  rw [← hm] at hqueue
  calc stock F s' = queue s'.master + ∑ p ∈ F, ↑(pipeSites s'.master p) +
        ∑ p ∈ F, heldBy (s'.processes p) := by
        simp only [stock, lane, Finset.sum_add_distrib]
        abel
    _ ≤ queue s.master + ↑(received s.master me) + ∑ p ∈ F, ↑(pipeSites s.master p) +
        ∑ p ∈ F, heldBy (s.processes p) := by
        gcongr with p _
        exact hp p
    _ = stock F s + ↑(received s.master me) := by
        simp only [stock, lane, Finset.sum_add_distrib]
        abel

theorem worker_stock {s' : System} {q : Pid} {done : Multiset Site}
    (hqueue : queue s'.master = queue s.master) (hq : lane s' q + done = lane s q)
    (hother : ∀ p, p ≠ q → lane s' p = lane s p) {F : Finset Pid} (hF : q ∈ F) :
    stock F s' + done = stock F s := by
  have hrest : ∑ p ∈ F.erase q, lane s' p = ∑ p ∈ F.erase q, lane s p :=
    Finset.sum_congr rfl fun p hp => hother p (Finset.ne_of_mem_erase hp)
  rw [stock, stock, hqueue, ← Finset.add_sum_erase F _ hF, ← Finset.add_sum_erase F _ hF, hrest,
    ← hq]
  abel

theorem read_held {w : Worker} {msg : ToWorker} {cfg : Config} {seed : ℤ} (hst : Status w)
    (he : WorkerState.Enabled w (receive cfg seed msg)) :
    held (WorkerState.handle w (receive cfg seed msg)).1 = held w + ↑msg.sites := by
  have h := handle_held hst he
  cases msg with
  | queueAdd | evaporate | configUpdate =>
    simpa [receive, completed, brought, ToWorker.sites] using h

theorem receive_silent (w : Worker) (msg : ToWorker) (cfg : Config) (seed : ℤ) :
    (WorkerState.handle w (receive cfg seed msg)).2 = [] := by
  cases msg with
  | queueAdd | configUpdate => rfl
  | evaporate =>
    simp only [receive, WorkerState.handle]
    split <;> rfl

theorem reachable_worker_status (hr : Reachable SystemModel.machine Unrestricted s) {q : Pid}
    {x : Process} (hx : s.processes q = some x) : Status x.worker :=
  reachable_status (worker_reachable hr hx)

theorem delivered_stock (hr : Reachable SystemModel.machine Unrestricted s) {q : Pid} {cfg : Config}
    {seed : ℤ} (he : SystemModel.Enabled s (.deliver q cfg seed)) (F : Finset Pid) :
    stock F (SystemModel.next s (.deliver q cfg seed)) = stock F s := by
  obtain ⟨x, hx, _, msg, hmsg, hen⟩ := he
  have hx : s.processes q = some x := hx
  obtain ⟨rest, hpipe⟩ : ∃ rest, s.master.pipe q = msg :: rest := List.head?_eq_some_iff.mp hmsg
  have hnext : SystemModel.next s (.deliver q cfg seed) =
      (s.read q).act q (receive cfg seed msg) := by
    simp only [SystemModel.next, hpipe]
  have hx' : (s.read q).processes q = some x := hx
  have hlane : ∀ p, lane (SystemModel.next s (.deliver q cfg seed)) p = lane s p := by
    intro p
    rw [hnext, act_eq hx']
    by_cases hp : p = q
    · subst hp
      have hsites : pipeSites s.master p = msg.sites ++ rest.flatMap ToWorker.sites := by
        rw [pipeSites, hpipe, List.flatMap_cons]
      have hrest : pipeSites (s.read p).master p = rest.flatMap ToWorker.sites := by
        simp [pipeSites, System.read, hpipe]
      simp only [lane, ↓reduceIte, heldBy, hrest, hsites, hx,
        read_held (reachable_worker_status hr hx) hen, ← Multiset.coe_add]
      abel
    · have hpipes : pipeSites (s.read q).master p = pipeSites s.master p := by
        simp [pipeSites, System.read, hp]
      simp only [lane, hp, ↓reduceIte, hpipes]
      rfl
  have hqueue : queue (SystemModel.next s (.deliver q cfg seed)).master = queue s.master := by
    rw [hnext, act_master]
    rfl
  simp only [stock, hqueue]
  exact congrArg (_ + ·) (Finset.sum_congr rfl fun p _ => hlane p)

theorem worked_stock (hr : Reachable SystemModel.machine Unrestricted s) {q : Pid}
    {we : WorkerState.Event} (he : SystemModel.Enabled s (.worker q we)) {F : Finset Pid}
    (hF : q ∈ F) :
    stock F (SystemModel.next s (.worker q we)) + ↑(reported s (.worker q we)) = stock F s := by
  obtain ⟨x, hx, _, hown, hen⟩ := he
  have hx : s.processes q = some x := hx
  have hreported : reported s (.worker q we) = completed x.worker we := by
    simp [reported, hx]
  have hbrought : brought we = [] := by
    cases we with
    | queueAdd => exact hown.elim
    | evaporate | configUpdate | checkTimer | complete | startup | totalsTick | statsTick => rfl
  have hheld := handle_held (reachable_worker_status hr hx) hen
  rw [hbrought, Multiset.coe_nil, add_zero] at hheld
  rw [hreported]
  refine worker_stock ?_ ?_ ?_ hF
  · rw [SystemModel.next, act_master]
  · rw [SystemModel.next, act_eq hx]
    simp only [lane, ↓reduceIte, heldBy, hx]
    rw [add_assoc, hheld]
  · intro p hp
    rw [SystemModel.next, act_eq hx]
    simp only [lane, hp, ↓reduceIte]

theorem crashed_stock (s : System) (q : Pid) (code : ExitCode) (F : Finset Pid) :
    stock F (SystemModel.next s (.crash q code)) = stock F s := by
  refine congrArg (_ + ·) (Finset.sum_congr rfl fun p _ => ?_)
  simp only [lane, SystemModel.next, System.crash]
  by_cases hp : p = q
  · subst hp
    cases hx : s.processes p with
    | none => simp [heldBy]
    | some x => simp [heldBy]
  · simp [hp]

/-- What is there after a step was there, or the master has taken it in; and what a worker has
reported is there no more. -/
theorem next_stock (hr : Reachable SystemModel.machine Unrestricted s)
    (he : SystemModel.Enabled s e) {F : Finset Pid} (hF : actor e ⊆ F) :
    stock F (SystemModel.next s e) + ↑(reported s e) ≤ stock F s + ↑(taken s e) := by
  have ha := reachable_apart hr
  cases e with
  | master me launch =>
    simp only [reported, Multiset.coe_nil, add_zero]
    apply master_stock ha rfl
    intro p
    simp only [SystemModel.next, System.masterStep]
    split
    · exact Multiset.zero_le _
    · split
      · exact Multiset.zero_le _
      · exact le_refl _
  | hear q =>
    simp only [reported, Multiset.coe_nil, add_zero]
    cases hread : s.toMaster q with
    | nil =>
      have hpos : 0 < (s.toMaster q).length := he
      rw [hread] at hpos
      exact absurd hpos (Nat.lt_irrefl 0)
    | cons msg rest =>
      have htaken : taken s (.hear q) = received s.master (.message q msg) := by
        simp [taken, hread]
      rw [htaken]
      apply master_stock ha
      · simp only [SystemModel.next, System.hear, hread]
      · simp only [SystemModel.next, System.hear, hread]
        exact fun p => le_refl _
  | deliver q cfg seed =>
    simp only [reported, taken, Multiset.coe_nil, add_zero]
    exact le_of_eq (delivered_stock hr he F)
  | worker q we =>
    simp only [taken, Multiset.coe_nil, add_zero]
    exact le_of_eq (worked_stock hr he (Finset.singleton_subset_iff.mp hF))
  | crash q code =>
    simp only [reported, taken, Multiset.coe_nil, add_zero]
    exact le_of_eq (crashed_stock s q code F)

theorem boot_stock (cfg : Config) (now : ℤ) (F : Finset Pid) :
    stock F (System.boot cfg now) = 0 := by
  have hlane : ∀ p, lane (System.boot cfg now) p = 0 := fun _ => rfl
  simp only [stock, hlane, Finset.sum_const_zero]
  rfl

theorem reported_stock (hr : Reachable SystemModel.machine Unrestricted s) {q : Pid}
    {we : WorkerState.Event} (he : SystemModel.Enabled s (.worker q we)) :
    ∀ site ∈ reported s (.worker q we), site ∈ stock {q} s := by
  intro site hsite
  have hle := next_stock hr he (subset_refl (actor (.worker q we)))
  rw [taken, Multiset.coe_nil, add_zero] at hle
  exact Multiset.mem_of_le hle (Multiset.mem_add.mpr (Or.inr (Multiset.mem_coe.mpr hsite)))

def Throughout (P : Site → Prop) (s : System) : Prop := ∀ F, ∀ site ∈ stock F s, P site

theorem next_throughout {P : Site → Prop} (hr : Reachable SystemModel.machine Unrestricted s)
    (he : SystemModel.Enabled s e) (h : Throughout P s) (htaken : ∀ site ∈ taken s e, P site) :
    Throughout P (SystemModel.next s e) := by
  intro F site hsite
  have hsub : F ⊆ F ∪ actor e := Finset.subset_union_left
  have hmem := Multiset.mem_of_le (stock_mono hsub _) hsite
  have hle := next_stock hr he (show actor e ⊆ F ∪ actor e from Finset.subset_union_right)
  have hin := Multiset.mem_of_le hle (Multiset.mem_add.mpr (Or.inl hmem))
  rcases Multiset.mem_add.mp hin with hin | hin
  · exact h _ site hin
  · exact htaken site (Multiset.mem_coe.mp hin)

/-- A message was there before, or a worker has just said it. -/
theorem next_messages (hr : Reachable SystemModel.machine Unrestricted s)
    (he : SystemModel.Enabled s e) {p : Pid} {msg : ToMaster}
    (hmsg : msg ∈ (SystemModel.next s e).toMaster p) : msg ∈ s.toMaster p ∨
      ∃ x we, e = .worker p we ∧ s.processes p = some x ∧ Says x.worker we msg := by
  have hstatus : ∀ {x}, s.processes p = some x → Status x.worker := fun hx =>
    reachable_status (worker_reachable hr hx)
  cases next_seen (reachable_roster hr) he p with
  | aside _ hm =>
    rw [hm] at hmsg
    exact Or.inl hmsg
  | heard _ hm =>
    rw [hm]
    exact Or.inl (List.mem_cons_of_mem _ hmsg)
  | stopped hm =>
    rw [hm]
    exact Or.inl (List.mem_cons_of_mem _ hmsg)
  | read _ _ _ ha =>
    rw [ha.sent] at hmsg
    rcases List.mem_append.mp hmsg with hmsg | hmsg
    · exact Or.inl hmsg
    · rw [receive_silent] at hmsg
      contradiction
  | @own x we hwe hx _ _ ha =>
    rw [ha.sent] at hmsg
    rcases List.mem_append.mp hmsg with hmsg | hmsg
    · exact Or.inl hmsg
    · exact Or.inr ⟨x, we, hwe, hx, handle_says (hstatus hx) ha.enabled msg hmsg⟩
  | killed _ _ _ _ hm =>
    rw [hm] at hmsg
    exact Or.inl hmsg
  | born _ _ _ _ hm =>
    rw [hm] at hmsg
    contradiction
  | left _ _ _ hm =>
    rw [hm] at hmsg
    exact Or.inl hmsg

end SiteFlow
