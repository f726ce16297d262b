import Jetmon.VoluntaryExit

/-! Workers that are asked to shut down because there are more than NUM_WORKERS. The master
compares the length of arrWorkers, in which a worker that was asked stays until its exit is
seen, so it may ask more workers than it can spare. -/
namespace Evaporation

open SiteModel
open TransitionSystem
open MasterState
open MasterDispatch
open MasterChannels
open MasterFrames
open WorkerState
open WorkerQueue
open SystemModel
open WorkerFlags

/-- The workers that the event asks to evaporate. -/
def dismissed (m : Master) : MasterState.Event → List Pid
  | .message pid .sendWork => if Crowded m ∧ Known m pid then [pid] else []
  | .queryDone _ (.rows (_ :: _)) =>
    if Crowded m then m.freeWorkers.filter fun pid => Known m pid else []
  | _ => []

def dismissals (s : System) : SystemModel.Event → List Pid
  | .master me _ => dismissed s.master me
  | .hear pid =>
    (s.toMaster pid).head?.toList.flatMap fun msg => dismissed s.master (.message pid msg)
  | .deliver _ _ _ | .worker _ _ | .crash _ _ => []

def Summoned (m : Master) (p : Pid) : Prop := .evaporate ∈ m.pipe p

instance (m : Master) (p : Pid) : Decidable (Summoned m p) :=
  inferInstanceAs (Decidable (_ ∈ _))

def Asked (s : System) (p : Pid) : Prop :=
  Summoned s.master p ∨ ∃ x ∈ s.processes p,
    x.worker.suicideSignal = true ∨ x.worker.exit = some .suicideSignal

instance (s : System) (p : Pid) : Decidable (Asked s p) := by
  unfold Asked
  infer_instance

def Live (s : System) (p : Pid) : Prop := ∃ x ∈ s.processes p, x.code = none

instance (s : System) (p : Pid) : Decidable (Live s p) := by
  unfold Live
  infer_instance

/-- The live workers that were asked and have not exited. -/
def evaporating (s : System) : List Pid :=
  s.master.arrWorkers.filter fun p => Live s p ∧ Asked s p

def serving (s : System) : List Pid := s.master.arrWorkers.filter fun p => ¬Asked s p

def surplus (m : Master) : ℕ := (m.arrWorkers.length - m.config.numWorkers).toNat

/-- The system, and what the master had when it last asked a worker to evaporate: its surplus,
NUM_WORKERS, and the number of workers it left unasked. -/
structure Watch where
  system : System
  surplus : ℕ
  numWorkers : ℤ
  serving : ℕ

def Watch.boot (cfg : Config) (now : ℤ) : Watch := ⟨System.boot cfg now, 0, 0, 0⟩

def Watch.next (w : Watch) (e : SystemModel.Event) : Watch :=
  let s := SystemModel.next w.system e
  if dismissals w.system e = [] then { w with system := s }
  else ⟨s, Evaporation.surplus w.system.master, w.system.master.config.numWorkers,
    (Evaporation.serving s).length⟩

def watch : Machine Watch SystemModel.Event :=
  ⟨fun w => ∃ cfg now, w = Watch.boot cfg now, fun w e => SystemModel.machine.enabled w.system e,
    Watch.next⟩

instance (w : Watch) (e : SystemModel.Event) : Decidable (watch.enabled w e) :=
  inferInstanceAs (Decidable (SystemModel.machine.enabled w.system e))

/-- No more workers are leaving than there were too many, and NUM_WORKERS were left. -/
structure WithinSurplus (w : Watch) : Prop where
  evaporating : (evaporating w.system).length ≤ w.surplus
  serving : w.numWorkers ≤ w.serving

/-- The run condition: when the master asks workers to evaporate, there are NUM_WORKERS others
that it has not asked. -/
def Spares (w : Watch) (e : SystemModel.Event) : Prop :=
  dismissals w.system e ≠ [] → w.system.master.config.numWorkers ≤
    (w.system.master.arrWorkers.filter fun p =>
      ¬Asked w.system p ∧ p ∉ dismissals w.system e).length

instance (w : Watch) (e : SystemModel.Event) : Decidable (Spares w e) := by
  unfold Spares
  infer_instance

variable {m m' : Master} {p : Pid}

theorem send_summoned (q : Pid) (msg : ToWorker) (m : Master) :
    Summoned (m.send q msg) p ↔ Summoned m p ∨ (p = q ∧ msg = .evaporate) := by
  by_cases hp : p = q
  · simp [Summoned, Master.send, hp, eq_comm]
  · simp [Summoned, Master.send, hp]

theorem summoned_of_pipe (h : m'.pipe p = m.pipe p) : Summoned m' p ↔ Summoned m p := by
  rw [Summoned, h, Summoned]

theorem summoned_of_link {msgs : List ToWorker} (hl : Link p m m' msgs)
    (hno : ∀ msg ∈ msgs, msg ≠ .evaporate) : Summoned m' p ↔ Summoned m p := by
  rw [Summoned, hl.pipe, List.mem_append, Summoned]
  constructor
  · rintro (h | h)
    · exact h
    · exact absurd rfl (hno _ h)
  · exact Or.inl

theorem sendWork_summoned (q : Pid) (m : Master) :
    Summoned (m.sendWork q) p ↔ Summoned m p ∨ (Crowded m ∧ Known m q ∧ p = q) := by
  by_cases hover : Crowded m
  · rcases sendWork_cases q m with ⟨_, he⟩ | ⟨hle, _⟩ | ⟨hle, _⟩
    · rw [he]
      split
      · rw [send_summoned]
        simp [*]
      · simp [*]
    · exact absurd hover (Int.not_lt.mpr hle)
    · exact absurd hover (Int.not_lt.mpr hle)
  · obtain ⟨_, msgs, hl, _, hno⟩ := moves_link (p := p) (sendWork_moves q m)
    rw [summoned_of_link hl (hno hover)]
    simp [hover]

theorem sendWork_known (q : Pid) (m : Master) : Known (m.sendWork q) p ↔ Known m p := by
  obtain ⟨_, hl, _⟩ := moves_uniform (p := p) (sendWork_moves q m)
  exact hl.known

/-- By induction over the free workers, each of which is asked in its turn. -/
theorem freeLoop_summoned (pids : List Pid) : ∀ m : Master, Crowded m →
    (Summoned
        (pids.foldl (fun m pid => if (m.getWorker pid).isSome then m.sendWork pid else m) m) p ↔
      Summoned m p ∨ (p ∈ pids ∧ Known m p)) := by
  induction pids with
  | nil =>
    intro m _
    simp
  | cons q rest ih =>
    intro m hover
    rw [List.foldl_cons]
    by_cases hk : Known m q
    · rw [if_pos ((getWorker_isSome m q).mpr hk), ih _ (sendWork_crowded.mpr hover),
        sendWork_summoned, sendWork_known, List.mem_cons]
      constructor
      · rintro ((h | ⟨_, _, rfl⟩) | ⟨h, hp⟩)
        · exact Or.inl h
        · exact Or.inr ⟨Or.inl rfl, hk⟩
        · exact Or.inr ⟨Or.inr h, hp⟩
      · rintro (h | ⟨rfl | h, hp⟩)
        · exact Or.inl (Or.inl h)
        · exact Or.inl (Or.inr ⟨hover, hk, rfl⟩)
        · exact Or.inr ⟨h, hp⟩
    · rw [if_neg (mt (getWorker_isSome m q).mp hk), ih m hover, List.mem_cons]
      constructor
      · rintro (h | ⟨h, hp⟩)
        · exact Or.inl h
        · exact Or.inr ⟨Or.inr h, hp⟩
      · rintro (h | ⟨rfl | h, hp⟩)
        · exact Or.inl h
        · exact absurd hp hk
        · exact Or.inr ⟨h, hp⟩

theorem freeWorkersToWork_summoned (h : m.arrObjects ≠ []) :
    Summoned m.freeWorkersToWork p ↔
      Summoned m p ∨ (Crowded m ∧ p ∈ m.freeWorkers ∧ Known m p) := by
  rcases freeWorkersToWork_cases m with ⟨hnil, _⟩ | ⟨_, he, hm⟩
  · exact absurd hnil h
  · by_cases hover : Crowded m
    · have hloop := freeLoop_summoned (p := p) m.freeWorkers { m with freeWorkers := [] } hover
      rw [he, and_iff_right hover]
      exact hloop
    · obtain ⟨_, msgs, hl, _, hno⟩ := moves_link (p := p) hm
      have hidle : Summoned { m with freeWorkers := [] } p ↔ Summoned m p := Iff.rfl
      simpa [hover] using (summoned_of_link hl (hno hover)).trans hidle

theorem forget_summoned {q : Pid} (h : Summoned ((m.resetChannel q).deleteWorker q) p) :
    Summoned m p := by
  have hpipe : ((m.resetChannel q).deleteWorker q).pipe p = (m.resetChannel q).pipe p := by
    unfold Master.deleteWorker
    split <;> rfl
  rw [Summoned, hpipe, Master.resetChannel] at h
  dsimp only at h
  split at h
  · contradiction
  · exact h

theorem ensureWorkerCount_summoned (fresh : List Pid) (m : Master) :
    Summoned (m.ensureWorkerCount fresh) p → Summoned m p := by
  apply ensureWorkerCount_invariant (I := fun m' => Summoned m' p → Summoned m p) id
  exact fun m' ih q _ h => ih (forget_summoned (q := q) h)

theorem workerExit_summoned (q : Pid) (code : ExitCode) (fresh : Pid) (m : Master) :
    Summoned (m.workerExit q code fresh) p → Summoned m p := by
  apply workerExit_invariant (I := fun m' => Summoned m' p → Summoned m p)
  · exact forget_summoned
  · exact fun _ m' ih h => ih (forget_summoned (q := fresh) h)

theorem assignWorkToWorker_summoned (q : Pid) (size : Option ℤ) (m : Master) :
    Summoned (m.assignWorkToWorker q size) p ↔ Summoned m p := by
  rw [assignWorkToWorker_eq]
  split
  · rw [MasterDispatch.give, send_summoned]
    simp [Summoned]
  · rfl

theorem reload_summoned (cfg : Config) (m : Master) : Summoned (m.reload cfg) p ↔ Summoned m p := by
  have hcfg : Summoned { m with config := cfg } p ↔ Summoned m p := Iff.rfl
  refine reload_invariant (I := fun m' => Summoned m' p ↔ Summoned m p) hcfg ?_
  intro m' h q _
  rw [send_summoned, h]
  simp

theorem retryLocally_summoned (m : Master) : Summoned m.retryLocally p ↔ Summoned m p := by
  have hloop : Summoned (retryLoop m m.localRetries).1 p ↔ Summoned m p := by
    refine retryLoop_invariant (I := fun m' => Summoned m' p ↔ Summoned m p) Iff.rfl ?_
    intro server _ m₁ m₂ h hmove
    obtain ⟨msgs, hl, hno⟩ := retryMove_link (p := p) hmove
    exact (summoned_of_link hl hno).trans h
  rcases retryLocally_cases m with ⟨_, he⟩ | ⟨_, he⟩ <;> rw [he]
  · exact hloop
  · split <;> exact hloop

theorem handle_summoned {e : MasterState.Event} (h : Summoned (MasterState.handle m e) p) :
    Summoned m p ∨ p ∈ dismissed m e := by
  by_cases hd : Dispatches e
  · cases e with
    | reload cfg => exact Or.inl ((reload_summoned cfg m).mp h)
    | message q msg =>
      cases msg with
      | sendWork =>
        rcases (sendWork_summoned q m).mp h with h | ⟨hover, hk, rfl⟩
        · exact Or.inl h
        · apply Or.inr
          rw [dismissed, if_pos ⟨hover, hk⟩]
          exact List.mem_singleton_self p
      | stopWork =>
        have hpipe := (stopWork_self q m).2.1
        exact Or.inl ((summoned_of_pipe (congrFun hpipe p)).mp h)
      | recheck server =>
        obtain ⟨_, _, _, he⟩ := recheck_eq q server m
        rw [he] at h
        exact Or.inl h
      | stats stats checkStats =>
        rcases stats_cases q stats checkStats m with ⟨-, he⟩ | he <;> rw [he] at h
        · have hkept : Summoned (m.keepStats q stats checkStats) p :=
            (assignWorkToWorker_summoned ..).mp h
          exact Or.inl hkept
        · exact Or.inl h
      | totals | notifyStatusChange | notifyStillDown => exact hd.elim
    | workerExit q code fresh => exact Or.inl (workerExit_summoned q code fresh m h)
    | ensureWorkerCount fresh => exact Or.inl (ensureWorkerCount_summoned fresh m h)
    | queryDone k answer =>
      cases answer with
      | error => exact hd.elim
      | rows rows =>
        cases rows with
        | nil => exact hd.elim
        | cons row rest =>
          rcases (freeWorkersToWork_summoned (by simp)).mp h with h | ⟨hover, hfree, hk⟩
          · exact Or.inl h
          · have hover : Crowded m := hover
            apply Or.inr
            rw [dismissed, if_pos hover]
            exact List.mem_filter.mpr ⟨hfree, decide_eq_true hk⟩
    | processQueuedRetries =>
      have hswept : Summoned (Master.requestRetries m.sweepRetries.1 m.sweepRetries.2) p :=
        (retryLocally_summoned _).mp h
      exact Or.inl hswept
    | wait | roundTimer | restartTimer | updateStats | hostStatus => exact hd.elim
  · have hpipe : (MasterState.handle m e).pipe = m.pipe :=
      congrArg Workload.pipe (handle_workload m hd)
    exact Or.inl ((summoned_of_pipe (congrFun hpipe p)).mp h)

variable {s : System} {e : SystemModel.Event}

theorem next_summoned (he : SystemModel.Enabled s e)
    (h : Summoned (SystemModel.next s e).master p) :
    Summoned s.master p ∨ p ∈ dismissals s e := by
  cases e with
  | master me launch => exact handle_summoned h
  | hear pid =>
    simp only [SystemModel.next, System.hear] at h
    simp only [dismissals]
    split at h
    · exact Or.inl h
    · rename_i msg rest hread
      rw [hread]
      simpa using handle_summoned h
  | deliver pid cfg seed =>
    simp only [SystemModel.next] at h
    split at h
    · exact Or.inl h
    · rw [act_master] at h
      simp only [Summoned, System.read] at h
      split at h
      · exact Or.inl (List.mem_of_mem_tail h)
      · exact Or.inl h
  | worker pid we =>
    rw [SystemModel.next, act_master] at h
    exact Or.inl h
  | crash pid code => exact Or.inl h

/-- A worker takes note of the request only when it reads it. -/
theorem handle_suicide {w : Worker} {we : WorkerState.Event} (hst : Status w)
    (he : WorkerState.Enabled w we) (h : (WorkerState.handle w we).1.suicideSignal = true) :
    w.suicideSignal = true ∨ we = .evaporate := by
  cases we with
  | evaporate => exact Or.inr rfl
  | queueAdd payload =>
    simp only [WorkerState.handle, Worker.addToQueue] at h
    split at h <;> exact Or.inl h
  | checkTimer now =>
    have hflags : flags (WorkerState.handle w (.checkTimer now)).1 = flags w := startChecks_flags ..
    exact Or.inl ((congrArg Flags.suicide hflags).symm.trans h)
  | complete k now res =>
    obtain ⟨extra, _, ho⟩ :=
      complete_outcome (hst.1 he.1) he.1 (List.getElem?_eq_getElem he.2) now res
    have hf : (flags (WorkerState.handle w (.complete k now res)).1).suicide = true := h
    generalize flags (WorkerState.handle w (.complete k now res)).1 = f at ho hf
    cases ho <;> exact Or.inl hf
  | configUpdate | startup | totalsTick | statsTick => exact Or.inl h

theorem asked_of_worker {x : Process} (hx : s.processes p = some x)
    (h : x.worker.suicideSignal = true) : Asked s p := Or.inr ⟨x, hx, Or.inl h⟩

theorem next_asked {C : System → SystemModel.Event → Prop} (hr : Reachable SystemModel.machine C s)
    (he : SystemModel.Enabled s e) (hlive : Live (SystemModel.next s e) p)
    (hasked : Asked (SystemModel.next s e) p) : (Live s p ∧ Asked s p) ∨ p ∈ dismissals s e := by
  obtain ⟨y, hy, hcode⟩ := hlive
  have hexit : y.worker.exit = none := (Option.or_eq_none_iff.mp hcode).2
  have hkilled : y.killed = none := (Option.or_eq_none_iff.mp hcode).1
  have hsame : (SystemModel.next s e).processes p = s.processes p →
      (Live s p ∧ Asked s p) ∨ p ∈ dismissals s e := by
    intro hx
    have hlive : Live s p := ⟨y, hx ▸ hy, hcode⟩
    rcases hasked with h | ⟨z, hz, h⟩
    · exact (next_summoned he h).imp_left fun h => ⟨hlive, Or.inl h⟩
    · exact Or.inl ⟨hlive, Or.inr ⟨z, hx ▸ hz, h⟩⟩
  have hacted : ∀ {x we}, s.processes p = some x → x.killed = none →
      Acted p s x we (SystemModel.next s e) → (we = .evaporate → Summoned s.master p) →
      (Live s p ∧ Asked s p) ∨ p ∈ dismissals s e := by
    intro x we hx hk ha hev
    obtain rfl := Option.some.inj (ha.worker.symm.trans hy)
    have halive : x.worker.exit = none := by
      have hen := ha.enabled
      cases we <;> first | exact hen | exact hen.1
    have hlive : Live s p := ⟨x, hx, Option.or_eq_none_iff.mpr ⟨hk, halive⟩⟩
    rcases hasked with h | ⟨z, hz, h⟩
    · exact (next_summoned he h).imp_left fun h => ⟨hlive, Or.inl h⟩
    · obtain rfl := Option.some.inj (hy.symm.trans hz)
      have hsuicide := h.resolve_right fun h => by
        rw [hexit] at h
        contradiction
      refine Or.inl ⟨hlive, ?_⟩
      have hstatus := reachable_status (worker_reachable hr hx)
      rcases handle_suicide hstatus ha.enabled hsuicide with h | h
      · exact asked_of_worker hx h
      · exact Or.inl (hev h)
  cases next_seen (reachable_roster hr) he p with
  | aside hx => exact hsame hx
  | heard _ _ hx => exact hsame hx
  | stopped _ hx => exact hsame hx
  | @read x msg cfg seed hx hk hpipe ha =>
    refine hacted hx hk ha fun hev => ?_
    cases msg with
    | evaporate =>
      rw [Summoned, hpipe]
      exact List.mem_cons_self ..
    | queueAdd | configUpdate => contradiction
  | @own x we _ hx hk hown ha =>
    refine hacted hx hk ha fun hev => ?_
    rw [hev] at hown
    exact hown.elim
  | killed _ _ _ hx' =>
    obtain rfl := Option.some.inj (hx'.symm.trans hy)
    contradiction
  | born _ _ _ hx' _ hnew =>
    obtain rfl := Option.some.inj (hx'.symm.trans hy)
    rcases hasked with h | ⟨z, hz, h⟩
    · rw [Summoned, hnew.pipe] at h
      contradiction
    · obtain rfl := Option.some.inj (hx'.symm.trans hz)
      rcases h with h | h <;> contradiction
  | left _ _ hx' => exact absurd (hx'.symm.trans hy) (by nofun)

/-- The master has too many workers, and nothing but its requests changes. -/
structure Asks (s : System) (asked : List Pid) (s' : System) : Prop where
  crowded : Crowded s.master
  processes : s'.processes = s.processes
  arrWorkers : s'.master.arrWorkers = s.master.arrWorkers
  summoned : ∀ p, Summoned s'.master p ↔ Summoned s.master p ∨ p ∈ asked

theorem handle_asks {me : MasterState.Event} (h : dismissed m me ≠ []) :
    Crowded m ∧ (MasterState.handle m me).arrWorkers = m.arrWorkers ∧
      ∀ p, Summoned (MasterState.handle m me) p ↔ Summoned m p ∨ p ∈ dismissed m me := by
  cases me with
  | message pid msg =>
    cases msg with
    | sendWork =>
      simp only [dismissed] at h ⊢
      split at h
      · rename_i hask
        rw [if_pos hask]
        refine ⟨hask.1, (moves_lists (sendWork_moves pid m)).1, fun p => ?_⟩
        refine (sendWork_summoned pid m).trans ?_
        simp [hask.1, hask.2]
      · contradiction
    | totals | notifyStatusChange | notifyStillDown | stopWork | recheck | stats => contradiction
  | queryDone k answer =>
    cases answer with
    | error => contradiction
    | rows rows =>
      cases rows with
      | nil => contradiction
      | cons row rest =>
        simp only [dismissed] at h ⊢
        split at h
        · rename_i hover
          let filled : Master := { m with
            queries := m.queries.eraseIdx k
            arrObjects := m.arrObjects ++ (row :: rest).map Site.ofRow
            gettingSites := false }
          have hwork : filled.arrObjects ≠ [] := by simp [filled]
          rw [if_pos hover]
          refine ⟨hover, ?_, fun p => ?_⟩
          · rcases freeWorkersToWork_cases filled with ⟨hnil, _⟩ | ⟨_, _, hm⟩
            · exact absurd hnil hwork
            · have hworkers := (moves_lists hm).1
              exact hworkers
          · refine (freeWorkersToWork_summoned hwork).trans ?_
            have hover : Crowded filled := hover
            rw [List.mem_filter, decide_eq_true_iff, and_iff_right hover]
            exact Iff.rfl
        · contradiction
  | wait | reload | workerExit | ensureWorkerCount | roundTimer | restartTimer | updateStats
  | processQueuedRetries | hostStatus => contradiction

theorem next_asks (he : SystemModel.Enabled s e) (h : dismissals s e ≠ []) :
    Asks s (dismissals s e) (SystemModel.next s e) := by
  cases e with
  | master me launch =>
    obtain ⟨hover, hw, hp⟩ := handle_asks h
    refine ⟨hover, ?_, hw, hp⟩
    have hquiet : me.spawned = [] ∧ ended me = [] := by
      cases me with
      | workerExit | ensureWorkerCount => exact absurd rfl h
      | message | wait | reload | queryDone | roundTimer | restartTimer | updateStats
      | processQueuedRetries | hostStatus => exact ⟨rfl, rfl⟩
    funext p
    simp [SystemModel.next, System.masterStep, hquiet]
  | hear pid =>
    cases hread : s.toMaster pid with
    | nil =>
      rw [dismissals, hread] at h
      contradiction
    | cons msg rest =>
      have hask : dismissals s (.hear pid) = dismissed s.master (.message pid msg) := by
        simp [dismissals, hread]
      have hnext : SystemModel.next s (.hear pid) = { s with
          master := MasterState.handle s.master (.message pid msg)
          toMaster := fun p => if p = pid then rest else s.toMaster p } := by
        simp only [SystemModel.next, System.hear, hread]
      rw [hask] at h ⊢
      obtain ⟨hover, hw, hp⟩ := handle_asks h
      rw [hnext]
      exact ⟨hover, rfl, hw, hp⟩
  | deliver | worker | crash => contradiction

theorem Asks.asked {asked : List Pid} {s' : System} (h : Asks s asked s') (p : Pid) :
    Asked s' p ↔ Asked s p ∨ p ∈ asked := by
  rw [Asked, h.summoned, h.processes, Asked, or_right_comm]

theorem Asks.serving {asked : List Pid} {s' : System} (h : Asks s asked s') :
    serving s' = s.master.arrWorkers.filter fun p => ¬Asked s p ∧ p ∉ asked := by
  rw [Evaporation.serving, h.arrWorkers]
  refine List.filter_congr fun p _ => ?_
  rw [decide_eq_decide, h.asked, not_or]

theorem evaporating_serving (s : System) :
    (evaporating s).length + (serving s).length ≤ s.master.arrWorkers.length := by
  rw [evaporating, serving, ← List.countP_eq_length_filter, ← List.countP_eq_length_filter]
  have hle : (s.master.arrWorkers.countP fun p => decide (Live s p ∧ Asked s p)) ≤
      s.master.arrWorkers.countP fun p => !decide (¬Asked s p) := by
    refine List.countP_mono_left fun p _ h => ?_
    simpa using (of_decide_eq_true h).2
  have hsum :=
    List.length_eq_countP_add_countP (fun p => decide (¬Asked s p)) (l := s.master.arrWorkers)
  simp only [Bool.not_eq_true, Bool.decide_eq_false] at hsum
  omega

theorem nodup_evaporating (hr : Roster s) : (evaporating s).Nodup := by
  refine List.nodup_iff_count_le_one.mpr fun p => ?_
  by_cases hp : p ∈ evaporating s
  · obtain ⟨hin, hlive⟩ := List.mem_filter.mp hp
    obtain ⟨⟨x, hx, _⟩, _⟩ := of_decide_eq_true hlive
    have hcount := ((hr p).listed x hx).2
    exact (List.filter_sublist.count_le p).trans hcount.le
  · rw [List.count_eq_zero_of_not_mem hp]
    exact Nat.zero_le 1

variable {w : Watch}

theorem next_watch_quiet (h : dismissals w.system e = []) :
    w.next e = { w with system := SystemModel.next w.system e } := if_pos h

theorem next_watch_asks (h : dismissals w.system e ≠ []) : w.next e =
    ⟨SystemModel.next w.system e, surplus w.system.master, w.system.master.config.numWorkers,
      (serving (SystemModel.next w.system e)).length⟩ := if_neg h

theorem evaporating_quiet (hr : Reachable SystemModel.machine Unrestricted s)
    (he : SystemModel.Enabled s e) (h : dismissals s e = []) :
    (evaporating (SystemModel.next s e)).length ≤ (evaporating s).length := by
  have hroster := step_roster (reachable_roster hr) he
  refine (List.Nodup.subperm (nodup_evaporating hroster) fun p hp => ?_).length_le
  obtain ⟨hlive, hasked⟩ := of_decide_eq_true (List.mem_filter.mp hp).2
  rcases next_asked hr he hlive hasked with hbefore | hnow
  · obtain ⟨x, hx, _⟩ := hbefore.1
    have hcount := ((reachable_roster hr p).listed x hx).2
    have hin : p ∈ s.master.arrWorkers := List.count_pos_iff.mp (by omega)
    exact List.mem_filter.mpr ⟨hin, decide_eq_true hbefore⟩
  · rw [h] at hnow
    contradiction

theorem within_next (hr : Reachable SystemModel.machine Unrestricted w.system)
    (he : SystemModel.Enabled w.system e) (h : WithinSurplus w) (hc : Spares w e) :
    WithinSurplus (w.next e) := by
  by_cases hd : dismissals w.system e = []
  · rw [next_watch_quiet hd]
    exact ⟨(evaporating_quiet hr he hd).trans h.evaporating, h.serving⟩
  · have hasks := next_asks he hd
    have hleft := hc hd
    have hcrowd : w.system.master.config.numWorkers < w.system.master.arrWorkers.length :=
      hasks.crowded
    have hsum := evaporating_serving (SystemModel.next w.system e)
    rw [hasks.arrWorkers] at hsum
    rw [next_watch_asks hd]
    rw [← hasks.serving] at hleft
    constructor
    · dsimp only [surplus]
      omega
    · exact hleft

theorem within_broken (he : SystemModel.Enabled w.system e) (hc : ¬Spares w e) :
    ¬WithinSurplus (w.next e) := by
  obtain ⟨hd, hfew⟩ := Classical.not_imp.mp hc
  intro h
  have hserving := h.serving
  rw [next_watch_asks hd] at hserving
  dsimp only at hserving
  rw [(next_asks he hd).serving] at hserving
  exact hfew hserving

theorem next_watch_system (w : Watch) (e : SystemModel.Event) :
    (w.next e).system = SystemModel.next w.system e := by
  unfold Watch.next
  dsimp only
  split <;> rfl

def Kept (w : Watch) : Prop :=
  Reachable SystemModel.machine Unrestricted w.system ∧ WithinSurplus w

theorem boot_kept (cfg : Config) (now : ℤ) : Kept (Watch.boot cfg now) :=
  ⟨.start ⟨cfg, now, rfl⟩, ⟨Nat.le_refl 0, Int.le_refl 0⟩⟩

theorem next_kept (he : SystemModel.Enabled w.system e) (h : Kept w) (hc : Spares w e) :
    Kept (w.next e) := by
  obtain ⟨hr, hwithin⟩ := h
  constructor
  · rw [next_watch_system]
    exact .step hr he trivial
  · exact within_next hr he hwithin hc

/-- While the master leaves NUM_WORKERS workers unasked, no more workers are leaving than there
were too many when the last was asked. -/
theorem evaporating_le_surplus (hr : Reachable watch Spares w) :
    (evaporating w.system).length ≤ w.surplus := by
  have hkept : Kept w := by
    induction hr with
    | start h =>
      obtain ⟨cfg, now, rfl⟩ := h
      exact boot_kept cfg now
    | step hr he hc ih => exact next_kept he ih hc
  exact hkept.2.evaporating

/-- The pool stays within its surplus in all states of a run exactly when the master leaves
NUM_WORKERS workers unasked at each of its requests. -/
theorem evaporation_within_surplus_iff (cfg : Config) (now : ℤ) {es : List SystemModel.Event}
    (hv : watch.Valid Unrestricted (Watch.boot cfg now) es) :
    watch.Always WithinSurplus (Watch.boot cfg now) es ↔
      watch.Valid Spares (Watch.boot cfg now) es := by
  refine always_iff_valid (I := Kept) (fun w h => h.2) ?_ ?_ (boot_kept cfg now) hv
  · intro w e h he _ hc
    exact next_kept he h hc
  · intro w e _ he _ hc
    exact within_broken he hc

def launch : Pid → Launch := fun _ => ⟨sampleConfig, "jetmon", 0⟩

def oneTooMany : List SystemModel.Event :=
  [.master (.ensureWorkerCount [1, 2, 3]) launch, .worker 1 .startup, .worker 2 .startup,
    .master (.reload { sampleConfig with numWorkers := 2 }) launch]

theorem evaporation_within_surplus_iff_one_leaves :
    let w := Watch.boot { sampleConfig with numWorkers := 3 } 0
    let es := oneTooMany ++ [.hear 1, .deliver 1 sampleConfig 0, .deliver 1 sampleConfig 0,
      .master (.workerExit 1 .suicideSignal 0) launch, .hear 2]
    watch.Always WithinSurplus w es ↔ watch.Valid Spares w es :=
  evaporation_within_surplus_iff _ 0 (by decide)

/-- Both ask before either has gone, and both are asked to evaporate. -/
theorem both_evaporate :
    ¬∀ w, Reachable watch Unrestricted w → (evaporating w.system).length ≤ w.surplus := by
  intro h
  have hr : Reachable watch Unrestricted
      (watch.exec (Watch.boot { sampleConfig with numWorkers := 3 } 0)
        (oneTooMany ++ [.hear 1, .hear 2])) :=
    exec_reachable (.start ⟨_, _, rfl⟩) (by decide)
  exact absurd (h _ hr) (by decide)

end Evaporation
