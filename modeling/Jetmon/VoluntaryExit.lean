import Jetmon.SystemModel
import Jetmon.WorkerFlags

/-! Workers that leave by themselves. The master keeps no copy of what it hands out, so
nothing is lost only if no work is in the channel of a worker that exits. The stop_work and
evaporate messages exclude that unless work crosses them. -/
namespace VoluntaryExit

open SiteModel
open TransitionSystem
open MasterState
open MasterDispatch
open MasterChannels
open WorkerState
open WorkerQueue
open SystemModel
open WorkerFlags

def isStopWork : ToMaster → Bool
  | .stopWork => true
  | _ => false

/-- The worker has been asked to leave, has decided to leave, or has left. -/
def Leaving (s : System) (p : Pid) : Prop :=
  .evaporate ∈ s.master.pipe p ∨ (s.toMaster p).any isStopWork = true ∨
    ∃ x ∈ s.processes p, x.code.isSome = true

instance (s : System) (p : Pid) : Decidable (Leaving s p) := by
  unfold Leaving
  infer_instance

def NoWork (s : System) (p : Pid) : Prop := ∀ msg ∈ s.master.pipe p, isWork msg = false

instance (s : System) (p : Pid) : Decidable (NoWork s p) := by
  unfold NoWork
  infer_instance

def Voluntary (_ : System) : SystemModel.Event → Prop
  | .crash _ _ => False
  | _ => True

/-- The worker decides with no work on its way to it. -/
def DecidesAlone (s : System) : SystemModel.Event → Prop
  | .worker p (.complete _ _ res) => ∀ x ∈ s.processes p, Deciding x.worker res.rss → NoWork s p
  | _ => True

/-- No worker is ended from outside, the master offers no work to a worker that is leaving,
and no worker decides to leave while work is on its way to it. -/
structure Uncrossed (s : System) (e : SystemModel.Event) : Prop where
  voluntary : Voluntary s e
  offered : ∀ p ∈ offers s e, ¬Leaving s p
  decides : DecidesAlone s e

instance (s : System) : (e : SystemModel.Event) → Decidable (Voluntary s e)
  | .crash _ _ => .isFalse id
  | .master _ _ | .hear _ | .deliver _ _ _ | .worker _ _ => .isTrue trivial

instance (s : System) (e : SystemModel.Event) : Decidable (DecidesAlone s e) := by
  unfold DecidesAlone
  split <;> infer_instance

instance (s : System) (e : SystemModel.Event) : Decidable (Uncrossed s e) :=
  decidable_of_iff (Voluntary s e ∧ (∀ p ∈ offers s e, ¬Leaving s p) ∧ DecidesAlone s e)
    ⟨fun h => ⟨h.1, h.2.1, h.2.2⟩, fun h => ⟨h.1, h.2, h.3⟩⟩

/-- What became of the sites handed to an ended process. -/
def Accounted (d : Departed) : Prop :=
  (∀ msg ∈ d.unread, isWork msg = false) ∧ d.handed.Perm d.finished

/-- A worker that has ended has processed all sites of its queue and leaves no work in its
channel. Every site that was handed out was finished once by the worker it was handed to, or
is held by that worker, which is live, or by its channel. -/
structure NothingLost (s : System) : Prop where
  exited : ∀ p x, s.processes p = some x → x.code ≠ none →
    (∀ site ∈ x.worker.arrCheck, site.processed = true) ∧ NoWork s p ∧
      (s.master.handed p).Perm x.worker.finished
  held : ∀ p x, s.processes p = some x → x.code = none →
    (s.master.handed p).Perm (x.worker.finished ++ x.worker.outstanding.map Outstanding.site ++
      x.worker.arrCheck.drop x.worker.pointer ++ (s.master.pipe p).flatMap ToWorker.sites)
  departed : ∀ d ∈ s.departed, Accounted d
  unowned : ∀ p, s.processes p = none → s.master.handed p = []

variable {p : Pid} {s s' : System} {e : SystemModel.Event}

def InOrder (s : System) (p : Pid) : Prop := ∀ x, s.processes p = some x →
  s.master.handed p = x.worker.added ++ (s.master.pipe p).flatMap ToWorker.sites

theorem InOrder.linked (h : InOrder s p) (hl : Linked p s e s')
    (hx : s'.processes p = s.processes p) : InOrder s' p := by
  obtain ⟨msgs, hl, _⟩ := hl
  intro x hx'
  rw [hl.handed, hl.pipe, h x (hx ▸ hx'), List.flatMap_append, List.append_assoc]

theorem step_inOrder {C : System → SystemModel.Event → Prop}
    (hr : Reachable SystemModel.machine C s) (h : InOrder s p) (he : SystemModel.Enabled s e) :
    InOrder (SystemModel.next s e) p := by
  have hadded : ∀ {x y we}, s.processes p = some x → Acted p s x we (SystemModel.next s e) →
      (SystemModel.next s e).processes p = some y →
      y.worker.added = x.worker.added ++ brought we := by
    intro x y we hx ha hy
    obtain rfl := Option.some.inj (ha.worker.symm.trans hy)
    exact handle_added (reachable_status (worker_reachable hr hx)) ha.enabled
  cases next_seen (reachable_roster hr) he p with
  | aside hx _ hl => exact h.linked hl hx
  | heard _ _ hx _ hl => exact h.linked hl hx
  | stopped _ hx hm =>
    obtain ⟨-, hp, hg, -⟩ := stopWork_self p s.master
    intro y hy
    rw [hm, hp, hg]
    exact h y (hx ▸ hy)
  | @read x msg cfg seed hx _ hpipe ha hm =>
    intro y hy
    have hsites : brought (receive cfg seed msg) = msg.sites := by
      cases msg <;> rfl
    have hhanded : (SystemModel.next s e).master.handed p = s.master.handed p := by
      rw [hm]
      rfl
    rw [hhanded, h x hx, hpipe, hadded hx ha hy, hsites, List.flatMap_cons, List.append_assoc]
  | @own x we _ hx _ hown ha hm =>
    intro y hy
    have hnone : brought we = [] := by
      cases we with
      | queueAdd => exact hown.elim
      | evaporate | configUpdate | checkTimer | complete | startup | totalsTick | statsTick => rfl
    rw [hm, hadded hx ha hy, hnone, List.append_nil]
    exact h x hx
  | @killed x code _ hx _ hx' _ hm =>
    intro y hy
    obtain rfl := Option.some.inj (hx'.symm.trans hy)
    rw [hm]
    exact h x hx
  | born _ _ _ hx _ hn =>
    intro y hy
    obtain rfl := Option.some.inj (hx.symm.trans hy)
    rw [hn.handed, hn.pipe]
    rfl
  | left _ _ hx =>
    intro y hy
    exact absurd (hx.symm.trans hy) (by nofun)

theorem reachable_inOrder {C : System → SystemModel.Event → Prop}
    (hr : Reachable SystemModel.machine C s) : InOrder s p := by
  refine reachable_invariant (I := fun s => InOrder s p) ?_ ?_ hr
  · rintro s ⟨cfg, now, rfl⟩ x hx
    contradiction
  · intro s e hr h he _
    exact step_inOrder hr h he

/-- Once the request to leave is on its way no work follows it, and once the worker has
decided or ended no work is on its way. -/
structure Orderly (s : System) (p : Pid) (x : Process) : Prop where
  own_exit : x.killed = none
  last_words : (s.master.pipe p).Pairwise fun a b => a = .evaporate → isWork b = false
  not_parked : p ∈ s.master.haltedWorkers → p ∉ s.master.freeWorkers
  announced : x.worker.availableForWork = false →
    .stopWork ∈ s.toMaster p ∨ p ∈ s.master.haltedWorkers
  quiet : x.worker.availableForWork = false ∨ x.worker.exit ≠ none → NoWork s p

theorem any_isStopWork {msgs : List ToMaster} (h : .stopWork ∈ msgs) :
    msgs.any isStopWork = true := List.any_eq_true.mpr ⟨_, h, rfl⟩

theorem Orderly.linked {x : Process} (h : Orderly s p x) (hx : s.processes p = some x)
    (ho : ∀ q ∈ offers s e, ¬Leaving s q) (hl : Linked p s e s')
    (hm : .stopWork ∈ s.toMaster p → .stopWork ∈ s'.toMaster p) : Orderly s' p x := by
  obtain ⟨msgs, hl, huniform, hwork⟩ := hl
  have hleaving : Leaving s p → ∀ msg ∈ msgs, isWork msg = false := by
    intro hleave msg hmem
    by_contra hw
    exact ho p (hwork msg hmem (by simpa using hw)) hleave
  constructor
  · exact h.own_exit
  · rw [hl.pipe, List.pairwise_append]
    refine ⟨h.last_words, ?_, ?_⟩
    · rcases huniform with hu | hu
      · exact List.pairwise_of_forall_mem_list fun a _ b hb _ => by rw [hu b hb]; rfl
      · exact List.pairwise_of_forall_mem_list fun a ha b _ hev => absurd hev (hu a ha)
    · rintro a ha b hb rfl
      exact hleaving (Or.inl ha) b hb
  · intro hh
    exact (hl.spared (hl.halted.mp hh) (h.not_parked (hl.halted.mp hh))).1
  · intro ha
    exact (h.announced ha).imp hm hl.halted.mpr
  · intro hq
    have hold := h.quiet hq
    have hnew : ∀ msg ∈ msgs, isWork msg = false := by
      rcases hq with ha | hexit
      · rcases h.announced ha with hs | hh
        · exact hleaving (Or.inr (Or.inl (any_isStopWork hs)))
        · exact (hl.spared hh (h.not_parked hh)).2
      · refine hleaving (Or.inr (Or.inr ⟨x, hx, ?_⟩))
        simpa [Process.code, h.own_exit, Option.isSome_iff_ne_none] using hexit
    intro msg hmem
    rw [hl.pipe] at hmem
    rcases List.mem_append.mp hmem with hmem | hmem
    · exact hold msg hmem
    · exact hnew msg hmem

theorem NoWork.of_tail {msgs : List ToWorker} (h : NoWork s p)
    (hp : s.master.pipe p = msgs ++ s'.master.pipe p) : NoWork s' p :=
  fun msg hmem => h msg (hp ▸ List.mem_append_right _ hmem)

theorem Orderly.acted {x : Process} {we : WorkerState.Event} {msgs : List ToWorker}
    (h : Orderly s p x) (hst : Status x.worker) (ha : Acted p s x we s')
    (hpipe : s.master.pipe p = msgs ++ s'.master.pipe p)
    (hh : s'.master.haltedWorkers = s.master.haltedWorkers)
    (hf : s'.master.freeWorkers = s.master.freeWorkers)
    (hev : we = .evaporate → msgs = [.evaporate])
    (hdecide : ∀ k now res, we = .complete k now res → Deciding x.worker res.rss → NoWork s p) :
    Orderly s' p { x with worker := (WorkerState.handle x.worker we).1 } := by
  have hlast := hpipe ▸ h.last_words
  constructor
  · exact h.own_exit
  · exact (List.pairwise_append.mp hlast).2.1
  · rw [hh, hf]
    exact h.not_parked
  · intro hav
    rw [hh, ha.sent, List.mem_append]
    cases hold : x.worker.availableForWork with
    | false => exact (h.announced hold).imp_left Or.inl
    | true => exact Or.inl (Or.inr ((handle_closing hst ha.enabled hold).2 hav))
  · intro hq
    cases hold : x.worker.availableForWork with
    | false => exact (h.quiet (Or.inl hold)).of_tail hpipe
    | true =>
      rcases (handle_closing hst ha.enabled hold).1 hq with hwe | ⟨k, now, res, hwe, hd⟩
      · -- the worker read the request to leave, and no work follows it
        intro msg hmem
        rw [hev hwe] at hlast
        exact (List.pairwise_cons.mp hlast).1 msg hmem rfl
      · exact (hdecide k now res hwe hd).of_tail hpipe

theorem step_orderly (hr : Reachable SystemModel.machine Uncrossed s)
    (h : ∀ x, s.processes p = some x → Orderly s p x) (he : SystemModel.Enabled s e)
    (hc : Uncrossed s e) {y : Process} (hy : (SystemModel.next s e).processes p = some y) :
    Orderly (SystemModel.next s e) p y := by
  cases next_seen (reachable_roster hr) he p with
  | aside hx hm hl =>
    have hy := hx.symm.trans hy
    exact (h y hy).linked hy hc.offered hl (by rw [hm]; exact id)
  | @heard msg hmsg hm hx _ hl =>
    have hy := hx.symm.trans hy
    refine (h y hy).linked hy hc.offered hl fun hs => ?_
    rw [hm] at hs
    exact (List.mem_cons.mp hs).resolve_left (Ne.symm hmsg)
  | stopped hm hx hmaster =>
    have hy := hx.symm.trans hy
    obtain ⟨hown, hlast, hpark, _, hquiet⟩ := h y hy
    obtain ⟨hp₀, hcount⟩ := (reachable_roster hr p).listed y hy
    have hknown : Known s.master p := ⟨hp₀, List.count_pos_iff.mp (by omega)⟩
    obtain ⟨_, hpipe, _, hhalt, hfree⟩ := stopWork_self p s.master
    constructor
    · exact hown
    · rw [hmaster, hpipe]
      exact hlast
    · rw [hmaster]
      exact hfree hpark
    · intro _
      rw [hmaster]
      exact Or.inr (hhalt.mpr (Or.inr hknown))
    · unfold NoWork
      rw [hmaster, hpipe]
      exact hquiet
  | @read x msg cfg seed hx hk hpipe ha hmaster =>
    obtain rfl := Option.some.inj (ha.worker.symm.trans hy)
    have hpipe : s.master.pipe p = [msg] ++ (SystemModel.next s e).master.pipe p := hpipe
    refine (h x hx).acted (reachable_status (worker_reachable hr hx)) ha hpipe
      (by rw [hmaster]; rfl) (by rw [hmaster]; rfl) ?_ ?_
    · cases msg with
      | evaporate => exact fun _ => rfl
      | queueAdd | configUpdate => nofun
    · cases msg <;> nofun
  | @own x we hown hx hk hown' ha hmaster =>
    obtain rfl := Option.some.inj (ha.worker.symm.trans hy)
    have hpipe : s.master.pipe p = [] ++ (SystemModel.next s e).master.pipe p := by
      rw [hmaster]
      rfl
    refine (h x hx).acted (reachable_status (worker_reachable hr hx)) ha hpipe
      (by rw [hmaster]) (by rw [hmaster]) ?_ ?_
    · rintro rfl
      exact hown'.elim
    · rintro k now res rfl hd
      have halone := hc.decides
      rw [hown] at halone
      exact halone x hx hd
  | killed hcrash =>
    subst hcrash
    exact hc.voluntary.elim
  | born _ _ _ hx hm hn =>
    obtain rfl := Option.some.inj (hx.symm.trans hy)
    refine ⟨rfl, by rw [hn.pipe]; exact List.Pairwise.nil, fun hh => absurd hh hn.halted, nofun, ?_⟩
    intro _ msg hmem
    rw [hn.pipe] at hmem
    contradiction
  | left _ _ hx => exact absurd (hx.symm.trans hy) (by nofun)

theorem reachable_orderly (hr : Reachable SystemModel.machine Uncrossed s) {x : Process}
    (hx : s.processes p = some x) : Orderly s p x := by
  revert x
  refine reachable_invariant (I := fun s => ∀ {x}, s.processes p = some x → Orderly s p x) ?_ ?_ hr
  · rintro s ⟨cfg, now, rfl⟩ x hx
    contradiction
  · intro s e hr ih he hc y hy
    exact step_orderly hr (fun _ hx => ih hx) he hc hy

theorem sites_of_noWork (h : NoWork s p) : (s.master.pipe p).flatMap ToWorker.sites = [] := by
  rw [List.flatMap_eq_nil_iff]
  intro msg hmem
  have hw := h msg hmem
  cases msg with
  | queueAdd => contradiction
  | evaporate | configUpdate => rfl

theorem exited_accounted (hr : Reachable SystemModel.machine Uncrossed s) {x : Process}
    (hx : s.processes p = some x) (hcode : x.code ≠ none) :
    (∀ site ∈ x.worker.arrCheck, site.processed = true) ∧ NoWork s p ∧
      (s.master.handed p).Perm x.worker.finished := by
  have ho := reachable_orderly hr hx
  have hexit : x.worker.exit ≠ none := by
    simpa [Process.code, ho.own_exit] using hcode
  have hw := worker_reachable hr hx
  obtain ⟨hout, hptr, hall, _⟩ := (reachable_status hw).2 hexit
  have hquiet := ho.quiet (Or.inr hexit)
  have hdone : x.worker.added.Perm x.worker.finished :=
    (BoundedQueue.all_done (reachable_queue hw) (List.drop_eq_nil_of_le hptr)
      (by simp [abstraction, hout])).2
  refine ⟨hall, hquiet, ?_⟩
  rw [reachable_inOrder hr x hx, sites_of_noWork hquiet, List.append_nil]
  exact hdone

theorem live_accounted {C : System → SystemModel.Event → Prop}
    (hr : Reachable SystemModel.machine C s) {x : Process} (hx : s.processes p = some x) :
    (s.master.handed p).Perm (x.worker.finished ++ x.worker.outstanding.map Outstanding.site ++
      x.worker.arrCheck.drop x.worker.pointer ++ (s.master.pipe p).flatMap ToWorker.sites) := by
  obtain ⟨horder, hconserved⟩ := reachable_queue (worker_reachable hr hx)
  have horder : x.worker.added = x.worker.started ++ x.worker.arrCheck.drop x.worker.pointer :=
    horder
  rw [reachable_inOrder hr x hx, horder]
  exact (hconserved.append_right _).append_right _

theorem departed_accounted (hr : Reachable SystemModel.machine Uncrossed s) :
    ∀ d ∈ s.departed, Accounted d := by
  refine reachable_invariant (I := fun s => ∀ d ∈ s.departed, Accounted d) ?_ ?_ hr
  · rintro s ⟨cfg, now, rfl⟩ d hd
    contradiction
  · intro s e hr ih he _ d hd
    rcases next_departed he d hd with hd | ⟨p, x, hx, hcode, rfl⟩
    · exact ih d hd
    · exact (exited_accounted hr hx hcode).2

/-- In a run without crossings no site is lost. -/
theorem nothing_lost_uncrossed {s : System} (hr : Reachable SystemModel.machine Uncrossed s) :
    NothingLost s where
  exited _ _ hx hcode := exited_accounted hr hx hcode
  held _ _ hx _ := live_accounted hr hx
  departed := departed_accounted hr
  unowned p hx := ((reachable_roster hr p).gone hx).handed

def recycling : Config :=
  { sampleConfig with
    numWorkers := 1
    datasetSize := 2
    workerMaxChecks := 1
    datasetSize_pos := by decide }

def launch : Pid → Launch := fun _ => ⟨recycling, "jetmon", 0⟩

/-- The worker asks, gets the first two of `rows`, starts both checks and reports stats. -/
def firstDataset (rows : List Row) : List SystemModel.Event :=
  [.master (.ensureWorkerCount [7]) launch, .worker 7 .startup, .hear 7,
    .master (.queryDone 0 (.rows rows)) launch, .deliver 7 recycling 0,
    .worker 7 (.checkTimer 0), .worker 7 (.statsTick 0 0)]

def siteRow (blogId : ℕ) : Row := ⟨blogId, "http://example.com", .running, none⟩

def siteUp : Result := ⟨1200, 200, 0, 0⟩

theorem nothing_lost_uncrossed_two_sites :
    NothingLost (SystemModel.machine.exec (System.boot recycling 0)
      (firstDataset [siteRow 1, siteRow 2] ++ [.worker 7 (.complete 0 0 siteUp),
        .worker 7 (.complete 0 0 siteUp), .hear 7, .hear 7,
        .master (.workerExit 7 .maxChecks 8) launch])) :=
  nothing_lost_uncrossed (exec_reachable (.start ⟨_, _, rfl⟩) (by decide))

/-- The stats message is answered with the third site while stop_work is still behind it in
the channel; the worker leaves with that site unread. -/
theorem top_up_crosses_stop_work :
    ¬ ∀ s, Reachable SystemModel.machine Voluntary s → NothingLost s := by
  intro h
  have hr : Reachable SystemModel.machine Voluntary (SystemModel.machine.exec
      (System.boot recycling 0) (firstDataset [siteRow 1, siteRow 2, siteRow 3] ++
        [.worker 7 (.complete 0 0 siteUp), .hear 7, .worker 7 (.complete 0 0 siteUp)])) :=
    exec_reachable (.start ⟨_, _, rfl⟩) (by decide)
  have hexit : ((SystemModel.machine.exec (System.boot recycling 0)
      (firstDataset [siteRow 1, siteRow 2, siteRow 3] ++ [.worker 7 (.complete 0 0 siteUp), .hear 7,
        .worker 7 (.complete 0 0 siteUp)])).processes 7).bind Process.code = some .maxChecks := by
    decide
  obtain ⟨x, hx, hcode⟩ := Option.bind_eq_some_iff.mp hexit
  have hnowork := ((h _ hr).exited 7 x hx (by rw [hcode]; nofun)).2.1
  exact absurd hnowork (by decide)

end VoluntaryExit
