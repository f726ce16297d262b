import Jetmon.MasterChannels
import Jetmon.WorkerQueue

/-! The master together with its workers. Each process has one FIFO channel in each
direction: `pipe` of the master, and `toMaster`. A process that has ended keeps its entry
until the master has seen the exit; `departed` is the history of those it has seen. -/
namespace SystemModel

open SiteModel
open TransitionSystem
open MasterState
open MasterDispatch
open MasterChannels
open WorkerState

/-- `killed` is the code of a process that was ended from outside. -/
structure Process where
  worker : Worker
  killed : Option ExitCode

def Process.code (x : Process) : Option ExitCode := x.killed.or x.worker.exit

/-- A process whose exit was seen: the sites it had been sent, those it had finished, and
what was left unread in its channel. -/
structure Departed where
  pid : Pid
  handed : List Site
  finished : List Site
  unread : List ToWorker

structure System where
  master : Master
  processes : Pid → Option Process
  toMaster : Pid → List ToMaster
  departed : List Departed

def System.boot (cfg : Config) (now : ℤ) : System :=
  ⟨Master.boot cfg now, fun _ => none, fun _ => [], []⟩

structure Launch where
  config : Config
  hostname : String
  seed : ℤ

/-- An event of the master other than a message, the master reading the next message of a
worker, a worker reading the next request, an event of a worker, and the end of a worker
that is not its own. -/
inductive Event where
  | master (e : MasterState.Event) (launch : Pid → Launch)
  | hear (pid : Pid)
  | deliver (pid : Pid) (cfg : Config) (seed : ℤ)
  | worker (pid : Pid) (e : WorkerState.Event)
  | crash (pid : Pid) (code : ExitCode)

/-- The worker's handler for a request. On config-update the worker reads the file again. -/
def receive (cfg : Config) (seed : ℤ) : ToWorker → WorkerState.Event
  | .queueAdd payload => .queueAdd payload
  | .evaporate => .evaporate
  | .configUpdate => .configUpdate cfg seed

/-- The pid is not in use and nothing of an earlier process is left to be read. -/
def Fresh (s : System) (pid : Pid) : Prop :=
  pid ≠ 0 ∧ (s.processes pid).isNone = true ∧ (s.toMaster pid).length = 0

instance (s : System) (pid : Pid) : Decidable (Fresh s pid) := by
  unfold Fresh
  infer_instance

def Observed (s : System) : MasterState.Event → Prop
  | .message _ _ => False
  | .workerExit pid code _ => ∃ x ∈ s.processes pid, x.code = some code
  | _ => True

instance (s : System) : (e : MasterState.Event) → Decidable (Observed s e)
  | .message _ _ => .isFalse id
  | .workerExit pid code _ =>
    inferInstanceAs (Decidable (∃ x ∈ s.processes pid, x.code = some code))
  | .wait _ | .reload _ | .ensureWorkerCount _ | .queryDone _ _ | .roundTimer _ | .restartTimer _
  | .updateStats | .processQueuedRetries | .hostStatus _ => .isTrue trivial

/-- Events that are not a request of the master. All processes read one clock. -/
def Own (clock : ℤ) : WorkerState.Event → Prop
  | .checkTimer now | .complete _ now _ | .statsTick now _ => now = clock
  | .startup | .totalsTick => True
  | .queueAdd _ | .evaporate | .configUpdate _ _ => False

instance (clock : ℤ) : (e : WorkerState.Event) → Decidable (Own clock e)
  | .checkTimer now | .complete _ now _ | .statsTick now _ =>
    inferInstanceAs (Decidable (now = clock))
  | .startup | .totalsTick => .isTrue trivial
  | .queueAdd _ | .evaporate | .configUpdate _ _ => .isFalse id

def Enabled (s : System) : Event → Prop
  | .master e launch => MasterState.Enabled s.master e ∧ Observed s e ∧ e.spawned.Nodup ∧
      ∀ pid ∈ e.spawned, Fresh s pid ∧ SeedFor (launch pid).config (launch pid).seed
  | .hear pid => 0 < (s.toMaster pid).length
  | .deliver pid cfg seed => ∃ x ∈ s.processes pid, x.killed = none ∧
      ∃ msg ∈ (s.master.pipe pid).head?, WorkerState.Enabled x.worker (receive cfg seed msg)
  | .worker pid e => ∃ x ∈ s.processes pid, x.killed = none ∧ Own s.master.clock e ∧
      WorkerState.Enabled x.worker e
  | .crash pid _ => ∃ x ∈ s.processes pid, x.code = none

instance (s : System) (e : Event) : Decidable (Enabled s e) := by
  unfold Enabled
  split <;> infer_instance

def System.act (pid : Pid) (e : WorkerState.Event) (s : System) : System :=
  match s.processes pid with
  | none => s
  | some x =>
    let (w, msgs) := WorkerState.handle x.worker e
    { s with
      processes := fun p => if p = pid then some { x with worker := w } else s.processes p
      toMaster := fun p => if p = pid then s.toMaster p ++ msgs else s.toMaster p }

def System.read (pid : Pid) (s : System) : System :=
  let m := s.master
  { s with master := { m with pipe := fun p => if p = pid then (m.pipe p).tail else m.pipe p } }

def ended : MasterState.Event → List Pid
  | .workerExit pid _ _ => [pid]
  | _ => []

def System.lastSeen (s : System) (pid : Pid) : Option Departed :=
  (s.processes pid).map fun x => ⟨pid, s.master.handed pid, x.worker.finished, s.master.pipe pid⟩

def Launch.start (launch : Launch) (now : ℤ) : Process :=
  ⟨Worker.boot launch.config launch.hostname now launch.seed, none⟩

def System.masterStep (e : MasterState.Event) (launch : Pid → Launch) (s : System) : System :=
  { s with
    master := MasterState.handle s.master e
    processes := fun p =>
      if p ∈ e.spawned then some ((launch p).start s.master.clock)
      else if p ∈ ended e then none else s.processes p
    departed := s.departed ++ (ended e).filterMap s.lastSeen }

def System.hear (pid : Pid) (s : System) : System :=
  match s.toMaster pid with
  | [] => s
  | msg :: rest =>
    { s with
      master := MasterState.handle s.master (.message pid msg)
      toMaster := fun p => if p = pid then rest else s.toMaster p }

def System.crash (pid : Pid) (code : ExitCode) (s : System) : System :=
  { s with
    processes := fun p =>
      if p = pid then (s.processes p).map fun x => { x with killed := some code }
      else s.processes p }

def next (s : System) : Event → System
  | .master e launch => s.masterStep e launch
  | .hear pid => s.hear pid
  | .deliver pid cfg seed =>
    match s.master.pipe pid with
    | [] => s
    | msg :: _ => s.read pid |>.act pid (receive cfg seed msg)
  | .worker pid e => s.act pid e
  | .crash pid code => s.crash pid code

def machine : Machine System Event := ⟨fun s => ∃ cfg now, s = System.boot cfg now, Enabled, next⟩

instance (s : System) (e : Event) : Decidable (machine.enabled s e) :=
  inferInstanceAs (Decidable (Enabled s e))

/-- What a step is for the master: it handles an event of its own or a message, or at most
a request is taken out of a channel. -/
inductive Ran (s : System) : Event → Master → Prop where
  | own {me launch m'} : m' = MasterState.handle s.master me → Ran s (.master me launch) m'
  | heard {pid msg rest m'} : s.toMaster pid = msg :: rest →
      m' = MasterState.handle s.master (.message pid msg) → Ran s (.hear pid) m'
  | idle {e pipe m'} : (∀ pid, e ≠ .hear pid) → m' = { s.master with pipe := pipe } → Ran s e m'

theorem act_master (pid : Pid) (we : WorkerState.Event) (s : System) :
    (s.act pid we).master = s.master := by
  unfold System.act
  split <;> rfl

theorem next_ran {s : System} {e : Event} (he : Enabled s e) : Ran s e (next s e).master := by
  cases e with
  | master me launch => exact .own rfl
  | hear pid =>
    cases hread : s.toMaster pid with
    | nil =>
      have hpos : 0 < (s.toMaster pid).length := he
      rw [hread] at hpos
      exact absurd hpos (Nat.lt_irrefl 0)
    | cons msg rest => exact .heard hread (by simp only [next, System.hear, hread])
  | deliver pid cfg seed =>
    simp only [next]
    split
    · exact .idle nofun rfl
    · rw [act_master]
      exact .idle nofun rfl
  | worker pid we =>
    rw [next, act_master]
    exact .idle nofun rfl
  | crash pid code => exact .idle nofun rfl

variable {p : Pid} {s s' : System} {e : Event}

def offers (s : System) : Event → List Pid
  | .master e _ => offered s.master e
  | .hear pid =>
    (s.toMaster pid).head?.toList.flatMap fun msg => offered s.master (.message pid msg)
  | .deliver _ _ _ | .worker _ _ | .crash _ _ => []

/-- What the master does in the step, as the worker `p` sees it. -/
def Linked (p : Pid) (s : System) (e : Event) (s' : System) : Prop :=
  ∃ msgs, Link p s.master s'.master msgs ∧ Uniform msgs ∧
    ∀ msg ∈ msgs, isWork msg = true → p ∈ offers s e

structure Acted (p : Pid) (s : System) (x : Process) (we : WorkerState.Event) (s' : System) : Prop
    where
  enabled : WorkerState.Enabled x.worker we
  worker : s'.processes p = some { x with worker := (WorkerState.handle x.worker we).1 }
  sent : s'.toMaster p = s.toMaster p ++ (WorkerState.handle x.worker we).2

/-- What one step is for the process `p`: nothing but requests from the master, a message
that the master reads, a request that it reads itself, an event of its own, its beginning
or its end. -/
inductive Seen (p : Pid) (s : System) (e : Event) (s' : System) : Prop where
  | aside : s'.processes p = s.processes p → s'.toMaster p = s.toMaster p → Linked p s e s' →
      Seen p s e s'
  | heard {msg} : msg ≠ .stopWork → s.toMaster p = msg :: s'.toMaster p →
      s'.processes p = s.processes p → s'.master = MasterState.handle s.master (.message p msg) →
      Linked p s e s' → Seen p s e s'
  | stopped : s.toMaster p = .stopWork :: s'.toMaster p → s'.processes p = s.processes p →
      s'.master = s.master.stopWork p → Seen p s e s'
  | read {x msg cfg seed} : s.processes p = some x → x.killed = none →
      s.master.pipe p = msg :: s'.master.pipe p → Acted p s x (receive cfg seed msg) s' →
      s'.master = (s.read p).master → Seen p s e s'
  | own {x we} : e = .worker p we → s.processes p = some x → x.killed = none →
      Own s.master.clock we → Acted p s x we s' → s'.master = s.master → Seen p s e s'
  | killed {x code} : e = .crash p code → s.processes p = some x → x.code = none →
      s'.processes p = some { x with killed := some code } → s'.toMaster p = s.toMaster p →
      s'.master = s.master → Seen p s e s'
  | born {launch : Launch} : p ≠ 0 → s.processes p = none → SeedFor launch.config launch.seed →
      s'.processes p = some (launch.start s.master.clock) → s'.toMaster p = [] →
      Newborn p s'.master → Seen p s e s'
  | left {x} : s.processes p = some x → x.code ≠ none → s'.processes p = none →
      s'.toMaster p = s.toMaster p → Gone p s'.master → Seen p s e s'

structure Entry (p : Pid) (s : System) : Prop where
  listed : ∀ x, s.processes p = some x → p ≠ 0 ∧ s.master.arrWorkers.count p = 1
  gone : s.processes p = none → Gone p s.master

def Roster (s : System) : Prop := ∀ p, Entry p s

theorem boot_roster (cfg : Config) (now : ℤ) : Roster (System.boot cfg now) :=
  fun _ => ⟨fun _ h => (by cases h), fun _ => ⟨List.not_mem_nil, rfl, rfl⟩⟩

theorem linked_of_bystander {me : MasterState.Event} (hb : Bystander p me)
    (hm : s'.master = MasterState.handle s.master me)
    (ho : p ∈ offered s.master me → p ∈ offers s e) : Linked p s e s' := by
  obtain ⟨msgs, hl, hu⟩ := handle_link s.master hb
  rw [← hm] at hl
  refine ⟨msgs, hl, hu, fun msg hmem hw => ?_⟩
  by_cases hp : p ∈ offered s.master me
  · exact ho hp
  · -- the work in the channel is what it was
    have hwork := handle_work hb hp
    rw [← hm, work, work, hl.pipe, List.filter_append, List.append_right_eq_self,
      List.filter_eq_nil_iff] at hwork
    exact absurd hw (hwork msg hmem)

theorem linked_of_same (hm : s'.master = s.master) : Linked p s e s' :=
  ⟨[], hm ▸ .refl p s.master, Or.inl nofun, nofun⟩

theorem act_eq {pid : Pid} {x : Process} (hx : s.processes pid = some x) (we : WorkerState.Event) :
    s.act pid we = { s with
      processes := fun p =>
        if p = pid then some { x with worker := (WorkerState.handle x.worker we).1 }
        else s.processes p
      toMaster := fun p =>
        if p = pid then s.toMaster p ++ (WorkerState.handle x.worker we).2 else s.toMaster p } := by
  simp only [System.act, hx]

theorem act_acted {x : Process} {we : WorkerState.Event} (hx : s.processes p = some x)
    (he : WorkerState.Enabled x.worker we) : Acted p s x we (s.act p we) := by
  rw [act_eq hx]
  exact ⟨he, if_pos rfl, if_pos rfl⟩

theorem masterStep_seen (hr : Roster s) {me : MasterState.Event} {launch : Pid → Launch}
    (he : Enabled s (.master me launch)) (p : Pid) :
    Seen p s (.master me launch) (s.masterStep me launch) := by
  obtain ⟨_, hobs, hnodup, hfresh⟩ := he
  by_cases hb : p ∈ me.spawned
  · obtain ⟨⟨hp, hnone, hread⟩, hseed⟩ := hfresh p hb
    have hnone := Option.isNone_iff_eq_none.mp hnone
    have hgone := (hr p).gone hnone
    refine .born hp hnone hseed (if_pos hb) (List.length_eq_zero_iff.mp hread) ?_
    cases me with
    | workerExit q code fresh =>
      have hf : respawns code = true ∧ fresh = p := by
        simp only [MasterState.Event.spawned] at hb
        split at hb
        · exact ⟨‹_›, (List.mem_singleton.mp hb).symm⟩
        · contradiction
      obtain ⟨hresp, rfl⟩ := hf
      have hq : q ≠ fresh := by
        rintro rfl
        obtain ⟨x, hx, _⟩ := hobs
        rw [hnone] at hx
        contradiction
      have hd : Link fresh s.master ((s.master.resetChannel q).deleteWorker q) [] :=
        (resetChannel_link hq).trans (deleteWorker_link hq)
      have hnew := spawnWorker_newborn hp (mt hd.mem.mp hgone.listed)
      simp only [System.masterStep, MasterState.handle, Master.workerExit, hresp, ↓reduceIte]
      exact hnew
    | ensureWorkerCount fresh =>
      exact ensureWorkerCount_newborn hp fresh s.master hnodup hb hgone.listed
    | message | wait | reload | queryDone | roundTimer | restartTimer | updateStats
    | processQueuedRetries | hostStatus => contradiction
  by_cases hl : p ∈ ended me
  · cases me with
    | workerExit q code fresh =>
      obtain rfl := List.mem_singleton.mp hl
      obtain ⟨x, hx, hcode⟩ := hobs
      have hx : s.processes p = some x := hx
      have hlist := (hr p).listed x hx
      refine .left hx (by rw [hcode]; exact Option.some_ne_none code)
        ((if_neg hb).trans (if_pos hl)) rfl ?_
      refine workerExit_gone hlist.1 hlist.2 fun hresp hf => hb ?_
      rw [MasterState.Event.spawned, if_pos hresp]
      exact List.mem_singleton.mpr hf.symm
    | message | wait | reload | ensureWorkerCount | queryDone | roundTimer | restartTimer
    | updateStats | processQueuedRetries | hostStatus => contradiction
  · suffices hstand : Bystander p me from
      .aside ((if_neg hb).trans (if_neg hl)) rfl (linked_of_bystander hstand rfl id)
    cases me with
    | message => exact hobs.elim
    | workerExit q code fresh =>
      refine ⟨fun hq => hl (List.mem_singleton.mpr hq.symm), fun hresp hf => hb ?_⟩
      rw [MasterState.Event.spawned, if_pos hresp]
      exact List.mem_singleton.mpr hf.symm
    | ensureWorkerCount fresh => exact hb
    | wait | reload | queryDone | roundTimer | restartTimer | updateStats | processQueuedRetries
    | hostStatus => trivial

theorem hear_seen {q : Pid} (he : Enabled s (.hear q)) (p : Pid) :
    Seen p s (.hear q) (s.hear q) := by
  cases hq : s.toMaster q with
  | nil => simp [Enabled, hq] at he
  | cons msg rest =>
    have hnext : s.hear q = { s with
        master := MasterState.handle s.master (.message q msg)
        toMaster := fun p => if p = q then rest else s.toMaster p } := by
      simp only [System.hear, hq]
    have hlinked : Bystander p (.message q msg) → Linked p s (.hear q) (s.hear q) := by
      intro hb
      refine linked_of_bystander hb (by rw [hnext]) fun ho => ?_
      simpa [offers, hq] using ho
    rw [hnext] at hlinked ⊢
    by_cases hp : q = p
    · subst hp
      by_cases hstop : msg = .stopWork
      · subst hstop
        exact .stopped (by simp [hq]) rfl rfl
      · refine .heard hstop (by simp [hq]) rfl rfl (hlinked ?_)
        cases msg with
        | stopWork => contradiction
        | totals | recheck | notifyStatusChange | notifyStillDown | sendWork | stats => trivial
    · refine .aside rfl (if_neg (Ne.symm hp)) (hlinked ?_)
      cases msg with
      | stopWork => exact hp
      | totals | recheck | notifyStatusChange | notifyStillDown | sendWork | stats => trivial

/-- The only reading of the transition function from the side of one process. -/
theorem next_seen (hr : Roster s) (he : Enabled s e) (p : Pid) : Seen p s e (next s e) := by
  cases e with
  | master me launch => exact masterStep_seen hr he p
  | hear q => exact hear_seen he p
  | deliver q cfg seed =>
    obtain ⟨x, hx, hk, msg, hmsg, hwe⟩ := he
    have hx : s.processes q = some x := hx
    cases hpipe : s.master.pipe q with
    | nil => simp [hpipe] at hmsg
    | cons msg' rest =>
      obtain rfl : msg' = msg := by simpa [hpipe] using hmsg
      have hx' : (s.read q).processes q = some x := hx
      simp only [next, hpipe]
      by_cases hp : q = p
      · subst hp
        obtain ⟨_, hw, hsent⟩ := act_acted hx' hwe
        refine .read hx hk ?_ ⟨hwe, hw, hsent⟩ ?_ <;> rw [act_eq hx']
        simp [System.read, hpipe]
      · rw [act_eq hx']
        refine .aside (if_neg (Ne.symm hp)) (if_neg (Ne.symm hp)) ⟨[], ?_, Or.inl nofun, nofun⟩
        exact .same rfl rfl (if_neg (Ne.symm hp)) rfl rfl
  | worker q we =>
    obtain ⟨x, hx, hk, hown, hwe⟩ := he
    have hx : s.processes q = some x := hx
    by_cases hp : q = p
    · subst hp
      refine .own rfl hx hk hown (act_acted hx hwe) ?_
      rw [next, act_eq hx]
    · rw [next, act_eq hx]
      exact .aside (if_neg (Ne.symm hp)) (if_neg (Ne.symm hp)) (linked_of_same rfl)
  | crash q code =>
    obtain ⟨x, hx, hcode⟩ := he
    have hx : s.processes q = some x := hx
    by_cases hp : q = p
    · subst hp
      exact .killed rfl hx hcode (by simp [next, System.crash, hx]) rfl rfl
    · exact .aside (if_neg (Ne.symm hp)) rfl (linked_of_same rfl)

theorem step_roster (hr : Roster s) (he : Enabled s e) : Roster (next s e) := by
  intro p
  have hentry := hr p
  have hlink : Linked p s e (next s e) → (next s e).processes p = s.processes p →
      Entry p (next s e) := by
    rintro ⟨msgs, hl, _⟩ hx
    refine ⟨fun x h => ?_, fun h => (hentry.gone (hx ▸ h)).link hl⟩
    rw [hl.listed]
    exact hentry.listed x (hx ▸ h)
  -- a process that acts keeps the entry it had
  have hstay : ∀ {x y}, s.processes p = some x → (next s e).processes p = some y →
      (next s e).master.arrWorkers = s.master.arrWorkers → Entry p (next s e) := by
    intro x y hx hy ha
    refine ⟨fun _ _ => ?_, fun h => absurd (hy.symm.trans h) (by nofun)⟩
    rw [ha]
    exact hentry.listed x hx
  cases next_seen hr he p with
  | aside hx _ hl => exact hlink hl hx
  | heard _ _ hx _ hl => exact hlink hl hx
  | stopped _ hx hm =>
    obtain ⟨ha, hp, hg, -⟩ := stopWork_self p s.master
    refine ⟨fun x h => ?_, fun h => ?_⟩ <;> rw [hx] at h
    · rw [hm, ha]
      exact hentry.listed x h
    · have hgone := hentry.gone h
      rw [hm]
      exact ⟨ha ▸ hgone.listed, hp ▸ hgone.pipe, hg ▸ hgone.handed⟩
  | read hx _ _ ha hm => exact hstay hx ha.worker (by rw [hm]; rfl)
  | own _ hx _ _ ha hm => exact hstay hx ha.worker (by rw [hm])
  | killed _ hx _ hx' _ hm => exact hstay hx hx' (by rw [hm])
  | born hp _ _ hx _ hnew =>
    exact ⟨fun _ _ => ⟨hp, hnew.listed⟩, fun h => absurd (hx.symm.trans h) (by nofun)⟩
  | left _ _ hx _ hg => exact ⟨fun x h => absurd (h.symm.trans hx) (by nofun), fun _ => hg⟩

theorem reachable_roster {C : System → Event → Prop} (hr : Reachable machine C s) : Roster s := by
  refine reachable_invariant ?_ ?_ hr
  · rintro s ⟨cfg, now, rfl⟩
    exact boot_roster cfg now
  · intro s e _ hi he _
    exact step_roster hi he

theorem next_departed (he : Enabled s e) : ∀ d ∈ (next s e).departed, d ∈ s.departed ∨
    ∃ p x, s.processes p = some x ∧ x.code ≠ none ∧
      d = ⟨p, s.master.handed p, x.worker.finished, s.master.pipe p⟩ := by
  intro d hd
  have hact : ∀ (s : System) (pid : Pid) (we : WorkerState.Event),
      (s.act pid we).departed = s.departed := by
    intro s pid we
    unfold System.act
    split <;> rfl
  cases e with
  | master me launch =>
    rcases List.mem_append.mp hd with hd | hd
    · exact Or.inl hd
    · obtain ⟨pid, hpid, hlast⟩ := List.mem_filterMap.mp hd
      cases me with
      | workerExit q code fresh =>
        obtain rfl := List.mem_singleton.mp hpid
        obtain ⟨x, hx, hcode⟩ := he.2.1
        have hx : s.processes pid = some x := hx
        refine Or.inr ⟨pid, x, hx, by rw [hcode]; exact Option.some_ne_none code, ?_⟩
        simpa [System.lastSeen, hx] using hlast.symm
      | message | wait | reload | ensureWorkerCount | queryDone | roundTimer | restartTimer
      | updateStats | processQueuedRetries | hostStatus => contradiction
  | hear q =>
    simp only [next, System.hear] at hd
    split at hd <;> exact Or.inl hd
  | deliver q cfg seed =>
    simp only [next] at hd
    split at hd
    · exact Or.inl hd
    · rw [hact] at hd
      exact Or.inl hd
  | worker q we =>
    rw [next, hact] at hd
    exact Or.inl hd
  | crash q code => exact Or.inl hd

theorem next_holds {P Q : Site → Prop} (h : Holds P Q s.master) (he : Enabled s e)
    (hrow : ∀ row, P (Site.ofRow row))
    (hdue : ∀ site, Q site → s.master.retryDue site = true → P site)
    (hrecheck : ∀ pid server, .recheck server ∈ s.toMaster pid →
      (server.checks.length : ℤ) < s.master.config.numOfChecks →
        Q { server with processed := false }) :
    Holds P Q (next s e).master := by
  have hact : ∀ {s : System} (pid : Pid) (we : WorkerState.Event), Holds P Q s.master →
      Holds P Q (s.act pid we).master := by
    intro s pid we h
    unfold System.act
    split <;> exact h
  cases e with
  | master me launch =>
    apply handle_holds h hrow hdue
    rintro pid server rfl
    exact he.2.1.elim
  | hear pid =>
    simp only [next, System.hear]
    split
    · exact h
    · rename_i msg rest hpipe
      refine handle_holds (e := .message pid msg) h hrow hdue ?_
      rintro q server hmsg
      obtain ⟨rfl, rfl⟩ : pid = q ∧ msg = .recheck server := by simpa using hmsg
      exact hrecheck pid server (hpipe ▸ List.mem_cons_self ..)
  | deliver pid cfg seed =>
    have hread : Holds P Q (s.read pid).master := by
      refine ⟨h.queued, h.waiting, fun q msg hm => ?_⟩
      simp only [System.read] at hm
      split at hm
      · exact h.sent q msg (List.mem_of_mem_tail hm)
      · exact h.sent q msg hm
    simp only [next]
    split
    · exact h
    · exact hact _ _ hread
  | worker pid we => exact hact pid we h
  | crash pid code => exact h

theorem boot_holds {P Q : Site → Prop} (cfg : Config) (now : ℤ) :
    Holds P Q (System.boot cfg now).master := by
  constructor <;> simp [System.boot, Master.boot]

theorem reachable_unprocessed {C : System → Event → Prop} (hr : Reachable machine C s) :
    Holds (fun site => site.processed = false) (fun site => site.processed = false) s.master := by
  refine reachable_invariant (I := fun s => Holds (fun site => site.processed = false)
    (fun site => site.processed = false) s.master) ?_ ?_ hr
  · rintro s ⟨cfg, now, rfl⟩
    exact boot_holds cfg now
  · intro s e _ h he _
    exact next_holds h he (fun _ => rfl) (fun _ hq _ => hq) fun _ _ _ _ => rfl

/-- Every worker of the system is a worker, killed or not. -/
theorem worker_reachable {C : System → Event → Prop} (hr : Reachable machine C s) {x : Process}
    (hx : s.processes p = some x) :
    Reachable WorkerState.machine WorkerQueue.Payloads x.worker := by
  revert x
  refine reachable_invariant (I := fun s => ∀ {x}, s.processes p = some x →
    Reachable WorkerState.machine WorkerQueue.Payloads x.worker) ?_ ?_ hr
  · rintro s ⟨cfg, now, rfl⟩ x hx
    contradiction
  · intro s e hr ih he _ y hy
    have hacted : ∀ {x we}, s.processes p = some x → Acted p s x we (next s e) →
        WorkerQueue.Payloads x.worker we →
        Reachable WorkerState.machine WorkerQueue.Payloads y.worker := by
      intro x we hx ha hp
      obtain rfl := Option.some.inj (ha.worker.symm.trans hy)
      exact .step (ih hx) ha.enabled hp
    cases next_seen (reachable_roster hr) he p with
    | aside hx => exact ih (hx.symm.trans hy)
    | heard _ _ hx => exact ih (hx.symm.trans hy)
    | stopped _ hx => exact ih (hx.symm.trans hy)
    | @read x msg cfg seed hx _ hpipe ha =>
      apply hacted hx ha
      have hcarry := (reachable_unprocessed hr).sent p msg (hpipe ▸ List.mem_cons_self ..)
      cases msg with
      | queueAdd payload => exact hcarry
      | evaporate | configUpdate => trivial
    | @own x we _ hx _ hown ha =>
      apply hacted hx ha
      cases we with
      | queueAdd => exact hown.elim
      | evaporate | configUpdate | checkTimer | complete | startup | totalsTick | statsTick =>
        trivial
    | @killed x code _ hx _ hx' =>
      obtain rfl := Option.some.inj (hx'.symm.trans hy)
      exact ih (x := x) hx
    | born _ _ hseed hx' =>
      obtain rfl := Option.some.inj (hx'.symm.trans hy)
      exact .start ⟨_, _, _, _, hseed, rfl⟩
    | left _ _ hx' => exact absurd (hx'.symm.trans hy) (by nofun)

end SystemModel
