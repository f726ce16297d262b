import Jetmon.SiteFlow
import Jetmon.VoluntaryExit

/-! The books of the whole system over a run. Every object that the master takes in is one of
those that are still to be checked, or a worker has reported it, or it was with a worker, or on
its way to it, when the master saw the worker's exit. -/
namespace WorkLedger

open SiteModel
open TransitionSystem
open MasterState
open MasterDispatch
open MasterFrames
open MasterChannels
open SiteLedger
open WorkerState
open WorkerQueue
open WorkerFlags
open SystemModel
open SiteFlow
open VoluntaryExit

/-- What is with the worker, or on its way to it, when the master sees its exit. -/
def lost (s : System) : SystemModel.Event → Multiset Site
  | .master (.workerExit pid _ _) _ => lane s pid
  | _ => 0

def spawnedBy : SystemModel.Event → List Pid
  | .master me _ => me.spawned
  | .hear _ | .deliver _ _ _ | .worker _ _ | .crash _ _ => []

/-- What the events of a run contribute, each seen from the state it meets. -/
def tally (f : System → SystemModel.Event → Multiset Site) (s : System) :
    List SystemModel.Event → Multiset Site
  | [] => 0
  | e :: es => f s e + tally f (SystemModel.next s e) es

variable {s : System} {e : SystemModel.Event} {p : Pid}

theorem stopWork_pipe (q : Pid) (m : Master) : (m.stopWork q).pipe = m.pipe := by
  have hend := congrArg Workload.pipe (maybeEndRound_workload (m.halt q))
  refine Eq.trans hend ?_
  obtain ⟨-, -, he⟩ | ⟨-, he⟩ := halt_cases q m
  · rw [workload, he]
  · rw [workload, he]

theorem pipe_goes_on (m : Master) {me : MasterState.Event} (hnew : p ∉ me.spawned)
    (hended : p ∉ ended me) : ∃ msgs, (MasterState.handle m me).pipe p = m.pipe p ++ msgs := by
  by_cases hb : Bystander p me
  · obtain ⟨msgs, hlink, -⟩ := handle_link m hb
    exact ⟨msgs, hlink.pipe⟩
  · cases me with
    | message q msg =>
      cases msg with
      | stopWork =>
        refine ⟨[], ?_⟩
        rw [List.append_nil]
        exact congrFun (stopWork_pipe q m) p
      | totals | recheck | notifyStatusChange | notifyStillDown | sendWork | stats =>
        exact absurd trivial hb
    | workerExit q code fresh =>
      refine absurd ⟨fun hq => hended (List.mem_singleton.mpr hq.symm), fun hresp hf => hnew ?_⟩ hb
      rw [MasterState.Event.spawned, if_pos hresp]
      exact List.mem_singleton.mpr hf.symm
    | ensureWorkerCount fresh => exact absurd hnew hb
    | wait | reload | queryDone | roundTimer | restartTimer | updateStats | processQueuedRetries
    | hostStatus => exact absurd trivial hb

theorem pipeSites_goes_on (m : Master) {me : MasterState.Event} (hnew : p ∉ me.spawned)
    (hended : p ∉ ended me) : pipeSites (MasterState.handle m me) p =
      pipeSites m p ++ (payloads m me p).flatMap ToWorker.sites := by
  obtain ⟨msgs, hpipe⟩ := pipe_goes_on m hnew hended
  have hwork : work (MasterState.handle m me) p = work m p ++ msgs.filter isWork := by
    rw [work, work, hpipe, List.filter_append]
  rw [pipeSites_work, pipeSites_work, payloads, hwork, List.drop_left, List.flatMap_append]

theorem payloads_cleared {m : Master} {me : MasterState.Event}
    (h : (MasterState.handle m me).pipe p = []) : payloads m me p = [] := by
  have hwork : work (MasterState.handle m me) p = [] := by
    rw [work, h]
    rfl
  rw [payloads, hwork, List.drop_nil]

theorem lane_goes_on (hr : Roster s) {me : MasterState.Event} {launch : Pid → Launch}
    (he : SystemModel.Enabled s (.master me launch)) (p : Pid) :
    lane (SystemModel.next s (.master me launch)) p + (if p ∈ ended me then lane s p else 0) =
      lane s p + ↑((payloads s.master me p).flatMap ToWorker.sites) := by
  obtain ⟨-, hobs, -, hfresh⟩ := he
  by_cases hnew : p ∈ me.spawned
  · -- a new worker has an empty channel, before and after
    obtain ⟨-, hnone, -⟩ := (hfresh p hnew).1
    have hnone := Option.isNone_iff_eq_none.mp hnone
    have hsilent : (MasterState.handle s.master me).pipe p = s.master.pipe p ∨
        (MasterState.handle s.master me).pipe p = [] := by
      cases me with
      | workerExit q code fresh => exact (workerExit_silent q code fresh s.master).pipe p
      | ensureWorkerCount fresh => exact (ensureWorkerCount_silent fresh s.master).pipe p
      | message | wait | reload | queryDone | roundTimer | restartTimer | updateStats
      | processQueuedRetries | hostStatus => contradiction
    have hbefore : s.master.pipe p = [] := ((hr p).gone hnone).pipe
    have hafter : (MasterState.handle s.master me).pipe p = [] := by
      obtain h | h := hsilent
      · exact h.trans hbefore
      · exact h
    have hold : lane s p = 0 := by
      rw [lane, pipeSites, hbefore, hnone]
      rfl
    have hlane : lane (SystemModel.next s (.master me launch)) p = 0 := by
      have hprocess : (SystemModel.next s (.master me launch)).processes p =
          some ((launch p).start s.master.clock) := if_pos hnew
      have hpipe : (SystemModel.next s (.master me launch)).master.pipe p = [] := hafter
      rw [lane, pipeSites, hpipe, hprocess]
      exact (zero_add _).trans (held_boot _ _ _ _)
    rw [hlane, hold, payloads_cleared hafter, ite_self]
    rfl
  · by_cases hended : p ∈ ended me
    · cases me with
      | workerExit q code fresh =>
        obtain rfl := List.mem_singleton.mp hended
        obtain ⟨x, hx, -⟩ := hobs
        have hx : s.processes p = some x := hx
        have hlist := (hr p).listed x hx
        have hgone : Gone p (MasterState.handle s.master (.workerExit p code fresh)) := by
          refine workerExit_gone hlist.1 hlist.2 fun hresp hf => hnew ?_
          rw [MasterState.Event.spawned, if_pos hresp]
          exact List.mem_singleton.mpr hf.symm
        have hprocess :
          (SystemModel.next s (.master (.workerExit p code fresh) launch)).processes p =
            none := (if_neg hnew).trans (if_pos hended)
        have hpipe :
          (SystemModel.next s (.master (.workerExit p code fresh) launch)).master.pipe p =
            [] := hgone.pipe
        have hlane : lane (SystemModel.next s (.master (.workerExit p code fresh) launch)) p =
            0 := by
          rw [lane, pipeSites, hpipe, hprocess]
          rfl
        rw [hlane, if_pos hended, payloads_cleared hgone.pipe, zero_add]
        exact (add_zero _).symm
      | message | wait | reload | ensureWorkerCount | queryDone | roundTimer | restartTimer
      | updateStats | processQueuedRetries | hostStatus => contradiction
    · have hprocess : (SystemModel.next s (.master me launch)).processes p = s.processes p :=
        (if_neg hnew).trans (if_neg hended)
      have hpipe : pipeSites (SystemModel.next s (.master me launch)).master p =
          pipeSites s.master p ++ (payloads s.master me p).flatMap ToWorker.sites :=
        pipeSites_goes_on s.master hnew hended
      rw [if_neg hended, lane, lane, hprocess, hpipe, ← Multiset.coe_add]
      abel

theorem lane_heard {q : Pid} {msg : ToMaster} {rest : List ToMaster}
    (hread : s.toMaster q = msg :: rest) (p : Pid) : lane (SystemModel.next s (.hear q)) p =
      lane s p + ↑((payloads s.master (.message q msg) p).flatMap ToWorker.sites) := by
  have hnext : SystemModel.next s (.hear q) = s.hear q := rfl
  simp only [System.hear, hread] at hnext
  have hpipe : pipeSites (SystemModel.next s (.hear q)).master p = pipeSites s.master p ++
      (payloads s.master (.message q msg) p).flatMap ToWorker.sites := by
    rw [hnext]
    exact pipeSites_goes_on s.master List.not_mem_nil List.not_mem_nil
  have hprocess : (SystemModel.next s (.hear q)).processes = s.processes := by rw [hnext]
  rw [lane, lane, hpipe, hprocess, ← Multiset.coe_add]
  abel

variable {F : Finset Pid}

def Covers (F : Finset Pid) (s : System) : Prop := ∀ p, s.processes p ≠ none → p ∈ F

theorem sum_payloads (hr : Roster s) (ha : Apart s.master) (hF : Covers F s)
    (me : MasterState.Event) :
    (∑ p ∈ F, ↑((payloads s.master me p).flatMap ToWorker.sites) : Multiset Site) =
      sentSites s.master me := by
  obtain ⟨en, ds, hbooked⟩ := handle_booked (e := me) ha
  have hroute : ∀ d ∈ ds, d.pid ∈ F := by
    intro d hd
    apply hF
    intro hnone
    exact ((hr d.pid).gone hnone).listed (hbooked.routed d hd).2.1
  rw [hbooked.sentSites, ← dispatched_split, ← sum_payloadsTo F ds hroute]
  exact Finset.sum_congr rfl fun p _ => by rw [hbooked.sent p]

theorem master_ledger {s' : System} {me : MasterState.Event} {gone : Multiset Site} (hr : Roster s)
    (ha : Apart s.master) (hF : Covers F s) (hm : s'.master = MasterState.handle s.master me)
    (hlanes : ∑ p ∈ F, lane s' p + gone =
      ∑ p ∈ F, (lane s p + ↑((payloads s.master me p).flatMap ToWorker.sites))) :
    stock F s' + gone = stock F s + ↑(received s.master me) := by
  have hqueue : queue s'.master + sentSites s.master me =
      queue s.master + ↑(received s.master me) := by
    rw [hm]
    exact (step_conserves ha).symm
  rw [Finset.sum_add_distrib, sum_payloads hr ha hF me] at hlanes
  calc stock F s' + gone = queue s'.master + (∑ p ∈ F, lane s' p + gone) := add_assoc _ _ _
    _ = queue s'.master + sentSites s.master me + ∑ p ∈ F, lane s p := by
        rw [hlanes]
        abel
    _ = stock F s + ↑(received s.master me) := by
        rw [hqueue, stock]
        abel

theorem next_ledger (hr : Reachable SystemModel.machine Unrestricted s)
    (he : SystemModel.Enabled s e) (hF : Covers F s) :
    stock F (SystemModel.next s e) + ↑(reported s e) + lost s e = stock F s + ↑(taken s e) := by
  have hroster := reachable_roster hr
  have ha := reachable_apart hr
  cases e with
  | master me launch =>
    have hlost : lost s (.master me launch) = ∑ p ∈ F, if p ∈ ended me then lane s p else 0 := by
      cases me with
      | workerExit q code fresh =>
        obtain ⟨x, hx, -⟩ := he.2.1
        have hx : s.processes q = some x := hx
        have hq : q ∈ F := hF q (by rw [hx]; exact Option.some_ne_none x)
        simp only [lost, ended, List.mem_singleton]
        rw [Finset.sum_ite_eq', if_pos hq]
      | message | wait | reload | ensureWorkerCount | queryDone | roundTimer | restartTimer
      | updateStats | processQueuedRetries | hostStatus =>
        exact (Finset.sum_eq_zero fun p _ => if_neg List.not_mem_nil).symm
    rw [reported, Multiset.coe_nil, add_zero, hlost]
    apply master_ledger hroster ha hF rfl
    rw [← Finset.sum_add_distrib]
    exact Finset.sum_congr rfl fun p _ => lane_goes_on hroster he p
  | hear q =>
    have hlost : lost s (.hear q) = 0 := rfl
    rw [reported, hlost, Multiset.coe_nil, add_zero, add_zero]
    cases hread : s.toMaster q with
    | nil =>
      have hpos : 0 < (s.toMaster q).length := he
      rw [hread] at hpos
      exact absurd hpos (Nat.lt_irrefl 0)
    | cons msg rest =>
      have htaken : taken s (.hear q) = received s.master (.message q msg) := by
        simp [taken, hread]
      have hmaster : (SystemModel.next s (.hear q)).master =
          MasterState.handle s.master (.message q msg) := by
        simp only [SystemModel.next, System.hear, hread]
      have hlanes := Finset.sum_congr (rfl : F = F) fun p _ => lane_heard hread p
      have hledger := master_ledger hroster ha hF hmaster ((add_zero _).trans hlanes)
      rw [htaken]
      exact (add_zero _).symm.trans hledger
  | deliver q cfg seed => exact (add_zero _).trans (congrArg (· + 0) (delivered_stock hr he F))
  | worker q we =>
    have hq : q ∈ F := by
      obtain ⟨x, hx, -⟩ := he
      apply hF
      rw [Option.mem_def.mp hx]
      exact Option.some_ne_none x
    exact congrArg (· + 0) (worked_stock hr he hq)
  | crash q code => exact (add_zero _).trans (congrArg (· + 0) (crashed_stock s q code F))

theorem next_covers (he : SystemModel.Enabled s e) (hF : Covers F s)
    (hnew : ∀ p ∈ spawnedBy e, p ∈ F) : Covers F (SystemModel.next s e) := by
  intro p hp
  by_cases hold : s.processes p = none
  · apply hnew
    cases e with
    | master me launch =>
      by_contra hnot
      apply hp
      refine (if_neg hnot).trans ?_
      split
      · rfl
      · exact hold
    | hear q =>
      refine absurd ?_ hp
      simp only [SystemModel.next, System.hear]
      split <;> exact hold
    | deliver q cfg seed =>
      refine absurd ?_ hp
      obtain ⟨x, hx, -⟩ := he
      have hq : p ≠ q := by
        rintro rfl
        rw [Option.mem_def.mp hx] at hold
        contradiction
      simp only [SystemModel.next]
      split
      · exact hold
      · have hx' : (s.read q).processes q = some x := hx
        rw [act_eq hx']
        exact (if_neg hq).trans hold
    | worker q we =>
      refine absurd ?_ hp
      obtain ⟨x, hx, -⟩ := he
      have hq : p ≠ q := by
        rintro rfl
        rw [Option.mem_def.mp hx] at hold
        contradiction
      rw [SystemModel.next, act_eq hx]
      exact (if_neg hq).trans hold
    | crash q code =>
      refine absurd ?_ hp
      simp only [SystemModel.next, System.crash]
      split
      · rw [hold]
        rfl
      · exact hold
  · exact hF p hold

theorem run_ledger {es : List SystemModel.Event} (hr : Reachable SystemModel.machine Unrestricted s)
    (hv : SystemModel.machine.Valid Unrestricted s es) (hF : Covers F s)
    (hnew : ∀ e ∈ es, ∀ p ∈ spawnedBy e, p ∈ F) :
    stock F (SystemModel.machine.exec s es) + tally (fun s e => ↑(reported s e)) s es +
      tally lost s es = stock F s + tally (fun s e => ↑(taken s e)) s es := by
  induction es generalizing s with
  | nil => exact add_zero _
  | cons e es ih =>
    obtain ⟨⟨he, hc⟩, hv⟩ := hv
    obtain ⟨hfirst, hnew⟩ := List.forall_mem_cons.mp hnew
    have hstep := next_ledger hr he hF
    have hrest := ih (s := SystemModel.next s e) (hr.step he hc) hv (next_covers he hF hfirst) hnew
    change stock F (SystemModel.machine.exec (SystemModel.next s e) es) +
      (↑(reported s e) + tally (fun s e => ↑(reported s e)) (SystemModel.next s e) es) +
        (lost s e + tally lost (SystemModel.next s e) es) =
      stock F s + (↑(taken s e) + tally (fun s e => ↑(taken s e)) (SystemModel.next s e) es)
    calc _ = (stock F (SystemModel.machine.exec (SystemModel.next s e) es) +
            tally (fun s e => ↑(reported s e)) (SystemModel.next s e) es +
            tally lost (SystemModel.next s e) es) + (↑(reported s e) + lost s e) := by abel
      _ = (stock F (SystemModel.next s e) + ↑(reported s e) + lost s e) +
            tally (fun s e => ↑(taken s e)) (SystemModel.next s e) es := by
          rw [hrest]
          abel
      _ = _ := by
          rw [hstep]
          abel

theorem lost_uncrossed (hr : Reachable SystemModel.machine Uncrossed s)
    (he : SystemModel.Enabled s e) : lost s e = 0 := by
  cases e with
  | master me launch =>
    cases me with
    | workerExit q code fresh =>
      obtain ⟨x, hx, hcode⟩ := he.2.1
      have hx : s.processes q = some x := hx
      have hended : x.code ≠ none := by rw [hcode]; exact Option.some_ne_none code
      have hquiet := (exited_accounted hr hx hended).2.1
      have hexit : x.worker.exit ≠ none := by
        have hown := (reachable_orderly hr hx).own_exit
        simpa [Process.code, hown] using hended
      obtain ⟨hout, hptr, -⟩ := (reachable_status (worker_reachable hr hx)).2 hexit
      have hheld : held x.worker = 0 := by
        rw [held, hout, List.drop_eq_nil_of_le hptr]
        rfl
      have hpipe : pipeSites s.master q = [] := sites_of_noWork hquiet
      rw [lost, lane, hpipe, hx, heldBy, hheld]
      rfl
    | message | wait | reload | ensureWorkerCount | queryDone | roundTimer | restartTimer
    | updateStats | processQueuedRetries | hostStatus => rfl
  | hear | deliver | worker | crash => rfl

theorem tally_uncrossed {es : List SystemModel.Event}
    (hr : Reachable SystemModel.machine Uncrossed s)
    (hv : SystemModel.machine.Valid Uncrossed s es) : tally lost s es = 0 := by
  induction es generalizing s with
  | nil => rfl
  | cons e es ih =>
    obtain ⟨⟨he, hc⟩, hv⟩ := hv
    have hrest := ih (hr.step he hc) hv
    have hfirst := lost_uncrossed hr he
    change lost s e + tally lost (SystemModel.next s e) es = 0
    rw [hfirst, zero_add]
    exact hrest

/-- Over every run of the whole system each object that the master took in, from the database or
back from a worker, is reported once, or is to be checked, in one place, or was with a worker
that ended. Where no worker is ended from outside and no request crosses a leaving worker,
nothing is lost. -/
theorem work_accounted (cfg : Config) (now : ℤ) {es : List SystemModel.Event}
    (hv : SystemModel.machine.Valid Unrestricted (System.boot cfg now) es)
    (hnew : ∀ e ∈ es, ∀ p ∈ spawnedBy e, p ∈ F) :
    stock F (SystemModel.machine.exec (System.boot cfg now) es) +
        tally (fun s e => ↑(reported s e)) (System.boot cfg now) es +
        tally lost (System.boot cfg now) es =
      tally (fun s e => ↑(taken s e)) (System.boot cfg now) es ∧
    (SystemModel.machine.Valid Uncrossed (System.boot cfg now) es →
      tally lost (System.boot cfg now) es = 0) := by
  have hcovers : Covers F (System.boot cfg now) := fun p hp => absurd rfl hp
  constructor
  · rw [run_ledger (.start ⟨cfg, now, rfl⟩) hv hcovers hnew, boot_stock, zero_add]
  · exact tally_uncrossed (.start ⟨cfg, now, rfl⟩)

/-- One worker, recycled after two checks, which has reported the first of two sites. -/
theorem work_accounted_one_reported :
    stock {7} (SystemModel.machine.exec (System.boot recycling 0)
        (firstDataset [siteRow 1, siteRow 2] ++ [.worker 7 (.complete 0 0 siteUp)])) +
      tally (fun s e => ↑(reported s e)) (System.boot recycling 0)
        (firstDataset [siteRow 1, siteRow 2] ++ [.worker 7 (.complete 0 0 siteUp)]) +
      tally lost (System.boot recycling 0)
        (firstDataset [siteRow 1, siteRow 2] ++ [.worker 7 (.complete 0 0 siteUp)]) =
    tally (fun s e => ↑(taken s e)) (System.boot recycling 0)
      (firstDataset [siteRow 1, siteRow 2] ++ [.worker 7 (.complete 0 0 siteUp)]) :=
  (work_accounted recycling 0 (by decide) (by decide)).1

end WorkLedger
