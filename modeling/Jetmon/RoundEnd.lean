import Jetmon.SiteLedger

/-! Where the master ends a round. maybeEndRound compares the number of free workers with
the number of workers; here is which handlers can make the two equal, and that nothing ends
a round between its end and the timer that begins the next one. -/
namespace RoundEnd

open SiteModel
open MasterState
open MasterDispatch
open MasterFrames
open MasterChannels
open SiteLedger

variable {m m' : Master} {p q : Pid}

def Ending (m : Master) : Prop :=
  m.inRound = true ∧ m.arrObjects.length = 0 ∧ m.arrWorkers.length = m.freeWorkers.length

instance (m : Master) : Decidable (Ending m) := by
  unfold Ending
  infer_instance

theorem maybeEndRound_of_ending (h : Ending m) :
    m.maybeEndRound = { m with inRound := false, roundSitesCount := 0 } := if_pos h

theorem maybeEndRound_inRound (m : Master) : m.maybeEndRound.inRound =
    if Ending m then false else m.inRound := by
  by_cases h : Ending m
  · rw [maybeEndRound_of_ending h, if_pos h]
  · have he : m.maybeEndRound = m := if_neg h
    rw [he, if_neg h]

/-- The master when the case 'send_work' calls maybeEndRound. -/
def sendWorkEnds (p : Pid) (m : Master) : Prop :=
  ¬Crowded m ∧ m.arrObjects = [] ∧ Ending (fetch (park p m))

instance (p : Pid) (m : Master) : Decidable (sendWorkEnds p m) := by
  unfold sendWorkEnds
  infer_instance

def freeLoopEnds : List Pid → Master → Prop
  | [], _ => False
  | p :: ps, m =>
    if (m.getWorker p).isSome then sendWorkEnds p m ∨ freeLoopEnds ps (m.sendWork p)
    else freeLoopEnds ps m

def freeWorkersToWorkEnds (m : Master) : Prop :=
  m.arrObjects ≠ [] ∧ freeLoopEnds m.freeWorkers { m with freeWorkers := [] }

def messageEnds (m : Master) (p : Pid) : ToMaster → Prop
  | .sendWork => sendWorkEnds p m
  | .stopWork => Ending (m.halt p)
  | _ => False

instance (m : Master) (p : Pid) : (msg : ToMaster) → Decidable (messageEnds m p msg)
  | .sendWork => inferInstanceAs (Decidable (sendWorkEnds p m))
  | .stopWork => inferInstanceAs (Decidable (Ending (m.halt p)))
  | .totals _ | .recheck _ | .notifyStatusChange _ | .notifyStillDown _ | .stats _ _ =>
    .isFalse id

/-- A call of maybeEndRound in the handler of the event sets inRound to false. -/
def EndsRound (m : Master) : Event → Prop
  | .message p msg => messageEnds m p msg
  | .queryDone k (.rows (row :: rest)) => freeWorkersToWorkEnds (filled m k (row :: rest))
  | .processQueuedRetries =>
    let swept := Master.requestRetries m.sweepRetries.1 m.sweepRetries.2
    (retryLoop swept swept.localRetries).2 = true ∧
      freeWorkersToWorkEnds (retryLoop swept swept.localRetries).1
  | _ => False

/-- The free workers are known, each is listed once, none is halted, and none has work on
its way. -/
structure Calm (m : Master) : Prop where
  nodup : m.freeWorkers.Nodup
  listed : ∀ p ∈ m.freeWorkers, p ∈ m.arrWorkers
  willing : ∀ p ∈ m.freeWorkers, p ∉ m.haltedWorkers
  idle : ∀ p ∈ m.freeWorkers, work m p = []

theorem Calm.none (h : m.freeWorkers = []) : Calm m := by
  refine ⟨h ▸ List.nodup_nil, ?_, ?_, ?_⟩ <;> rw [h] <;>
    exact fun _ hp => absurd hp List.not_mem_nil

theorem Calm.shrink (h : Calm m) (hf : m'.freeWorkers.Sublist m.freeWorkers)
    (hl : ∀ p ∈ m'.freeWorkers, p ∈ m.arrWorkers → p ∈ m'.arrWorkers)
    (hh : ∀ p ∈ m'.freeWorkers, p ∈ m'.haltedWorkers → p ∈ m.haltedWorkers)
    (hw : ∀ p ∈ m'.freeWorkers, work m' p = work m p ∨ work m' p = []) : Calm m' := by
  refine ⟨h.nodup.sublist hf, fun p hp => hl p hp (h.listed p (hf.subset hp)),
    fun p hp hin => h.willing p (hf.subset hp) (hh p hp hin), fun p hp => ?_⟩
  rcases hw p hp with he | he
  · exact he.trans (h.idle p (hf.subset hp))
  · exact he

theorem Calm.same (h : Calm m) (hw : workload m' = workload m) : Calm m' := by
  have hf : m'.freeWorkers = m.freeWorkers := congrArg Workload.freeWorkers hw
  have ha : m'.arrWorkers = m.arrWorkers := congrArg Workload.arrWorkers hw
  have hh : m'.haltedWorkers = m.haltedWorkers := congrArg Workload.haltedWorkers hw
  have hp : m'.pipe = m.pipe := congrArg Workload.pipe hw
  exact h.shrink (hf ▸ List.Sublist.refl _) (fun _ _ hl => ha ▸ hl) (fun _ _ hin => hh ▸ hin)
    fun p _ => Or.inl (work_congr (congrFun hp p))

theorem Calm.not_ending {b : Pid} (h : Calm m) (hb : b ∈ m.arrWorkers) (hf : b ∉ m.freeWorkers) :
    ¬Ending m := by
  intro hend
  have hnodup : (b :: m.freeWorkers).Nodup := List.nodup_cons.mpr ⟨hf, h.nodup⟩
  have hsub : (b :: m.freeWorkers) ⊆ m.arrWorkers := by
    intro p hp
    rcases List.mem_cons.mp hp with rfl | hp
    · exact hb
    · exact h.listed p hp
  have hle := (hnodup.subperm hsub).length_le
  rw [List.length_cons, hend.2.2] at hle
  omega

theorem Calm.all_free (h : Calm m) (hlen : m.arrWorkers.length = m.freeWorkers.length) :
    ∀ p ∈ m.arrWorkers, p ∈ m.freeWorkers := by
  have hperm := (h.nodup.subperm h.listed).perm_of_length_le (Nat.le_of_eq hlen)
  exact fun p hp => hperm.mem_iff.mpr hp

theorem Calm.park (h : Calm m) (hq : q ∈ m.arrWorkers) (hw : work m q = []) :
    Calm (park q m) ∧ ∀ p ∈ (park q m).freeWorkers, p ∈ m.freeWorkers ∨ p = q := by
  by_cases hc : q ∉ m.haltedWorkers ∧ q ∉ m.freeWorkers
  · have he : MasterDispatch.park q m = { m with freeWorkers := m.freeWorkers ++ [q] } := if_pos hc
    rw [he]
    have hcases : ∀ p ∈ m.freeWorkers ++ [q], p ∈ m.freeWorkers ∨ p = q :=
      fun p hp => (List.mem_append.mp hp).imp_right List.mem_singleton.mp
    refine ⟨⟨?_, fun p hp => ?_, fun p hp => ?_, fun p hp => ?_⟩, hcases⟩
    · rw [List.nodup_append']
      exact ⟨h.nodup, List.nodup_singleton q, List.disjoint_singleton.mpr hc.2⟩
    · rcases hcases p hp with hp | rfl
      · exact h.listed p hp
      · exact hq
    · rcases hcases p hp with hp | rfl
      · exact h.willing p hp
      · exact hc.1
    · rcases hcases p hp with hp | rfl
      · exact h.idle p hp
      · exact hw
  · have he : MasterDispatch.park q m = m := if_neg hc
    rw [he]
    exact ⟨h, fun p hp => Or.inl hp⟩

theorem park_eq (q : Pid) (m : Master) : ∃ free, park q m = { m with freeWorkers := free } := by
  unfold MasterDispatch.park
  split
  · exact ⟨_, rfl⟩
  · exact ⟨m.freeWorkers, rfl⟩

theorem fetch_workload (m : Master) : workload (fetch m) = workload m := by
  by_cases hg : m.gettingSites = true
  · rw [fetch, if_pos hg]
  · rw [fetch, if_neg hg]
    exact getMoreSites_workload m

theorem assignWorkToWorker_free (q : Pid) (size : Option ℤ) (m : Master) :
    (m.assignWorkToWorker q size).freeWorkers = m.freeWorkers := by
  rw [assignWorkToWorker_eq]
  split <;> rfl

theorem assignWorkToWorker_halted (q : Pid) (size : Option ℤ) (m : Master) :
    (m.assignWorkToWorker q size).haltedWorkers = m.haltedWorkers := by
  rw [assignWorkToWorker_eq]
  split <;> rfl

theorem Calm.assign (h : Calm m) (size : Option ℤ)
    (hfree : q ∈ m.freeWorkers → m.arrObjects = []) : Calm (m.assignWorkToWorker q size) := by
  have hf := assignWorkToWorker_free q size m
  obtain ⟨ds, hds⟩ := assignWorkToWorker_shift q size m
  refine h.shrink (hf ▸ List.Sublist.refl _) (fun p _ hl => hds.workers ▸ hl)
    (fun p _ hin => assignWorkToWorker_halted q size m ▸ hin) fun p hp => Or.inl ?_
  rw [hf] at hp
  apply assignWorkToWorker_work
  by_cases hq : q = p
  · subst hq
    exact Or.inr (Or.inr (hfree hp))
  · exact Or.inl hq

/-- `hask` is about the one answer that makes the worker free. -/
theorem sendWork_calm (h : Calm m)
    (hask : ¬Crowded m → m.arrObjects = [] → q ∈ m.arrWorkers ∧ work m q = [])
    (hfree : q ∈ m.freeWorkers → m.arrObjects = []) :
    Calm (m.sendWork q) ∧ ∀ p ∈ (m.sendWork q).freeWorkers,
      p ∈ m.freeWorkers ∨ (p = q ∧ ¬Crowded m ∧ m.arrObjects = []) := by
  rcases sendWork_cases q m with ⟨_, he⟩ | ⟨hle, ha, he⟩ | ⟨_, ha, he⟩ <;> rw [he]
  · split
    · have hsend : Calm (m.send q .evaporate) :=
        h.shrink (List.Sublist.refl _) (fun _ _ hl => hl) (fun _ _ hh => hh) fun p _ =>
          Or.inl (send_work q (Or.inr rfl))
      exact ⟨hsend, fun p hp => Or.inl hp⟩
    · exact ⟨h, fun p hp => Or.inl hp⟩
  · have hsame : workload (fetch (MasterDispatch.park q m)).maybeEndRound =
        workload (MasterDispatch.park q m) :=
      (maybeEndRound_workload _).trans (fetch_workload _)
    have hc : ¬Crowded m := by simpa [Crowded] using hle
    obtain ⟨hq, hw⟩ := hask hc ha
    obtain ⟨hcalm, hsub⟩ := h.park hq hw
    have hf : (fetch (MasterDispatch.park q m)).maybeEndRound.freeWorkers =
        (MasterDispatch.park q m).freeWorkers := congrArg Workload.freeWorkers hsame
    refine ⟨hcalm.same hsame, fun p hp => ?_⟩
    rw [hf] at hp
    exact (hsub p hp).imp_right fun he => ⟨he, hc, ha⟩
  · exact ⟨h.assign none hfree, fun p hp => Or.inl (assignWorkToWorker_free q none m ▸ hp)⟩

theorem sendWork_arrWorkers (q : Pid) (m : Master) : (m.sendWork q).arrWorkers = m.arrWorkers :=
  (moves_lists (sendWork_moves q m)).1

structure Turns (ps : List Pid) (m : Master) : Prop where
  nodup : ps.Nodup
  waiting : ∀ p ∈ ps, p ∉ m.freeWorkers ∧ p ∈ m.arrWorkers ∧ work m p = []

theorem Turns.tail {ps : List Pid} (ht : Turns (q :: ps) m) (h : Calm m) :
    Turns ps (m.sendWork q) := by
  obtain ⟨hq, hrest⟩ := List.nodup_cons.mp ht.nodup
  obtain ⟨hqf, hqa, hqw⟩ := ht.waiting q (List.mem_cons_self ..)
  have hsub := (sendWork_calm h (fun _ _ => ⟨hqa, hqw⟩) fun hf => absurd hf hqf).2
  refine ⟨hrest, fun p hp => ?_⟩
  obtain ⟨hpf, hpa, hpw⟩ := ht.waiting p (List.mem_cons_of_mem _ hp)
  have hne : p ≠ q := fun he => hq (he ▸ hp)
  refine ⟨fun hf => ?_, sendWork_arrWorkers q m ▸ hpa, ?_⟩
  · exact (hsub p hf).elim hpf fun hn => hne hn.1
  · rw [sendWork_work (Or.inl hne.symm), hpw]

theorem freeLoop_calm (ps : List Pid) : ∀ {m : Master}, Calm m → Turns ps m →
    Calm (ps.foldl (fun m pid => if (m.getWorker pid).isSome then m.sendWork pid else m) m) ∧
      ∀ p ∈ (ps.foldl (fun m pid => if (m.getWorker pid).isSome then m.sendWork pid else m)
        m).freeWorkers, p ∈ m.freeWorkers ∨ p ∈ ps := by
  induction ps with
  | nil => exact fun h _ => ⟨h, fun p hp => Or.inl hp⟩
  | cons q rest ih =>
    intro m h ht
    obtain ⟨hqf, hqa, hqw⟩ := ht.waiting q (List.mem_cons_self ..)
    rw [List.foldl_cons]
    split
    · obtain ⟨hstep, hsub⟩ := sendWork_calm h (fun _ _ => ⟨hqa, hqw⟩) fun hf => absurd hf hqf
      obtain ⟨hrest, hsub'⟩ := ih hstep (ht.tail h)
      refine ⟨hrest, fun p hp => ?_⟩
      rcases hsub' p hp with hp | hp
      · rcases hsub p hp with hp | ⟨rfl, _⟩
        · exact Or.inl hp
        · exact Or.inr (List.mem_cons_self ..)
      · exact Or.inr (List.mem_cons_of_mem _ hp)
    · have ht' : Turns rest m := ⟨(List.nodup_cons.mp ht.nodup).2,
        fun p hp => ht.waiting p (List.mem_cons_of_mem _ hp)⟩
      obtain ⟨hrest, hsub⟩ := ih h ht'
      exact ⟨hrest, fun p hp => (hsub p hp).imp_right (List.mem_cons_of_mem _)⟩

theorem Calm.turns (h : Calm m) : Turns m.freeWorkers { m with freeWorkers := [] } :=
  ⟨h.nodup, fun p hp => ⟨List.not_mem_nil, h.listed p hp, h.idle p hp⟩⟩

theorem freeWorkersToWork_calm (h : Calm m) :
    Calm m.freeWorkersToWork ∧ ∀ p ∈ m.freeWorkersToWork.freeWorkers, p ∈ m.freeWorkers := by
  rcases freeWorkersToWork_cases m with ⟨_, he⟩ | ⟨_, he, _⟩ <;> rw [he]
  · exact ⟨h, fun p hp => hp⟩
  · have hnone : Calm { m with freeWorkers := [] } := .none rfl
    obtain ⟨hcalm, hsub⟩ := freeLoop_calm m.freeWorkers hnone h.turns
    exact ⟨hcalm, fun p hp => (hsub p hp).resolve_left List.not_mem_nil⟩

theorem filled_calm (h : Calm m) (k : ℕ) (rows : List Row) : Calm (filled m k rows) :=
  h.shrink (List.Sublist.refl _) (fun _ _ hl => hl) (fun _ _ hh => hh) fun _ _ => Or.inl rfl

theorem retryMove_calm {server : Site} (h : Calm m) (hmove : RetryMove server m m') :
    Calm m' ∧ ∀ p ∈ m'.freeWorkers, p ∈ m.freeWorkers := by
  cases hmove with
  | keep | requeue =>
    refine ⟨?_, fun p hp => hp⟩
    exact h.shrink (List.Sublist.refl _) (fun _ _ hl => hl) (fun _ _ hh => hh)
      fun _ _ => Or.inl rfl
  | @hand i q _ hi =>
    have hsub : ∀ p ∈ m.freeWorkers.eraseIdx i, p ∈ m.freeWorkers :=
      fun p hp => List.mem_of_mem_eraseIdx hp
    refine ⟨h.shrink (List.eraseIdx_sublist _ _) (fun _ _ hl => hl)
      (fun _ _ hh => hh) fun p hp => Or.inl ?_, hsub⟩
    -- the worker that gets the site is no longer free
    have hq : q ≠ p := by
      rintro rfl
      obtain ⟨j, hj, hget⟩ := List.mem_eraseIdx_iff_getElem?.mp hp
      obtain ⟨hlt, -⟩ := List.getElem?_eq_some_iff.mp hget
      exact hj ((List.getElem?_inj hlt h.nodup).mp (hget.trans hi.symm))
    exact send_work q (Or.inl hq)

theorem retryLocally_calm (h : Calm m) :
    Calm m.retryLocally ∧ ∀ p ∈ m.retryLocally.freeWorkers, p ∈ m.freeWorkers := by
  have hloop : Calm (retryLoop m m.localRetries).1 ∧
      ∀ p ∈ (retryLoop m m.localRetries).1.freeWorkers, p ∈ m.freeWorkers := by
    refine retryLoop_invariant (I := fun m' => Calm m' ∧ ∀ p ∈ m'.freeWorkers, p ∈ m.freeWorkers)
      ⟨h.shrink (List.Sublist.refl _) (fun _ _ hl => hl) (fun _ _ hh => hh) fun _ _ => Or.inl rfl,
        fun p hp => hp⟩ ?_
    rintro server _ m₁ m₂ ⟨hcalm, hsub⟩ hmove
    obtain ⟨hcalm', hsub'⟩ := retryMove_calm hcalm hmove
    exact ⟨hcalm', fun p hp => hsub p (hsub' p hp)⟩
  rcases retryLocally_cases m with ⟨_, he⟩ | ⟨_, he⟩ <;> rw [he]
  · exact hloop
  · split
    · exact hloop
    · exact ⟨.none rfl, fun p hp => absurd hp List.not_mem_nil⟩

theorem deleteWorker_calm (q : Pid) (h : Calm m) :
    Calm (m.deleteWorker q) ∧ ∀ p ∈ (m.deleteWorker q).freeWorkers, p ∈ m.freeWorkers := by
  by_cases hq : q = 0
  · have he : m.deleteWorker q = m := if_pos hq
    rw [he]
    exact ⟨h, fun p hp => hp⟩
  · have he : m.deleteWorker q = { m with
        arrWorkers := m.arrWorkers.erase q
        workerStats := fun p => if p = q ∧ q ∈ m.arrWorkers then none else m.workerStats p
        freeWorkers := m.freeWorkers.filter (· ≠ q)
        haltedWorkers := m.haltedWorkers.filter (· ≠ q) } := if_neg hq
    rw [he]
    refine ⟨h.shrink List.filter_sublist (fun p hp hl => ?_)
      (fun p _ hh => (List.mem_filter.mp hh).1) fun _ _ => Or.inl rfl,
      fun p hp => (List.mem_filter.mp hp).1⟩
    have hne : p ≠ q := by simpa using (List.mem_filter.mp hp).2
    exact (List.mem_erase_of_ne hne).mpr hl

theorem resetChannel_calm (q : Pid) (h : Calm m) : Calm (m.resetChannel q) := by
  refine h.shrink (List.Sublist.refl _) (fun _ _ hl => hl) (fun _ _ hh => hh) fun p _ => ?_
  by_cases hp : p = q
  · exact Or.inr (by simp [work, Master.resetChannel, hp])
  · exact Or.inl (work_congr (if_neg hp))

theorem spawnWorker_calm (q : Pid) (h : Calm m) :
    Calm (m.spawnWorker q) ∧ ∀ p ∈ (m.spawnWorker q).freeWorkers, p ∈ m.freeWorkers := by
  obtain ⟨hd, hsub⟩ := deleteWorker_calm q (resetChannel_calm q h)
  exact ⟨hd.shrink (List.Sublist.refl _) (fun _ _ hl => List.mem_append_left _ hl)
    (fun _ _ hh => hh) fun _ _ => Or.inl rfl, hsub⟩

theorem ensureWorkerCount_calm (fresh : List Pid) (h : Calm m) :
    Calm (m.ensureWorkerCount fresh) ∧
      ∀ p ∈ (m.ensureWorkerCount fresh).freeWorkers, p ∈ m.freeWorkers := by
  refine ensureWorkerCount_invariant (I := fun m' => Calm m' ∧ ∀ p ∈ m'.freeWorkers,
    p ∈ m.freeWorkers) ⟨h, fun p hp => hp⟩ ?_
  rintro m' ⟨h', hsub⟩ q _
  obtain ⟨hs, hsub'⟩ := spawnWorker_calm q h'
  exact ⟨hs, fun p hp => hsub p (hsub' p hp)⟩

theorem workerExit_calm (q : Pid) (code : ExitCode) (fresh : Pid) (h : Calm m) :
    Calm (m.workerExit q code fresh) ∧
      ∀ p ∈ (m.workerExit q code fresh).freeWorkers, p ∈ m.freeWorkers := by
  refine workerExit_invariant (I := fun m' => Calm m' ∧ ∀ p ∈ m'.freeWorkers, p ∈ m.freeWorkers)
    (deleteWorker_calm q (resetChannel_calm q h)) ?_
  rintro - m' ⟨h', hsub⟩
  obtain ⟨hs, hsub'⟩ := spawnWorker_calm fresh h'
  exact ⟨hs, fun p hp => hsub p (hsub' p hp)⟩

theorem halt_calm (q : Pid) (h : Calm m) :
    Calm (m.halt q) ∧ ∀ p ∈ (m.halt q).freeWorkers, p ∈ m.freeWorkers := by
  rcases halt_cases q m with ⟨_, _, he⟩ | ⟨_, he⟩ <;> rw [he]
  · refine ⟨h.shrink List.filter_sublist (fun _ _ hl => hl) (fun p hp hh => ?_)
      fun _ _ => Or.inl rfl, fun p hp => (List.mem_filter.mp hp).1⟩
    have hne : p ≠ q := by simpa using (List.mem_filter.mp hp).2
    exact (List.mem_append.mp hh).resolve_right (by simpa using hne)
  · exact ⟨h, fun p hp => hp⟩

theorem stopWork_calm (q : Pid) (h : Calm m) :
    Calm (m.stopWork q) ∧ ∀ p ∈ (m.stopWork q).freeWorkers, p ∈ m.freeWorkers := by
  have hend := maybeEndRound_workload (m.halt q)
  obtain ⟨hhalt, hsub⟩ := halt_calm q h
  have hf : (m.halt q).maybeEndRound.freeWorkers = (m.halt q).freeWorkers :=
    congrArg Workload.freeWorkers hend
  exact ⟨hhalt.same hend, fun p hp => hsub p (hf ▸ hp)⟩

theorem halt_not_ending (h : Calm m) (hk : Known m p) : ¬Ending (m.halt p) := by
  refine (halt_calm p h).1.not_ending (b := p) ?_ ?_ <;>
    rcases halt_cases p m with ⟨_, _, he⟩ | ⟨hin, he⟩ <;> rw [he]
  · exact hk.2
  · exact hk.2
  · simp
  · exact fun hf => h.willing p hf (hin hk)

theorem reload_lists (cfg : Config) (m : Master) :
    (m.reload cfg).freeWorkers = m.freeWorkers ∧
      (m.reload cfg).haltedWorkers = m.haltedWorkers :=
  reload_invariant (I := fun m' => m'.freeWorkers = m.freeWorkers ∧
    m'.haltedWorkers = m.haltedWorkers) ⟨rfl, rfl⟩ fun _ h _ _ => h

theorem handle_calm {e : Event} (h : Calm m) (hs : Settled m)
    (hask : ∀ q, e = .message q .sendWork → ¬Crowded m → m.arrObjects = [] →
      q ∈ m.arrWorkers ∧ work m q = []) :
    Calm (handle m e) ∧
      ∀ p ∈ (handle m e).freeWorkers,
        p ∈ m.freeWorkers ∨ (e = .message p .sendWork ∧ ¬Crowded m ∧ m.arrObjects = []) := by
  have hfree : ∀ {m'}, (Calm m' ∧ ∀ p ∈ m'.freeWorkers, p ∈ m.freeWorkers) →
      Calm m' ∧ ∀ p ∈ m'.freeWorkers, p ∈ m.freeWorkers ∨
        (e = .message p .sendWork ∧ ¬Crowded m ∧ m.arrObjects = []) :=
    fun hc => ⟨hc.1, fun p hp => Or.inl (hc.2 p hp)⟩
  have hempty : ∀ q ∈ m.freeWorkers, m.arrObjects = [] := by
    intro q hf
    refine hs.resolve_right fun hnil => ?_
    rw [hnil] at hf
    contradiction
  by_cases hd : Dispatches e
  · cases e with
    | reload cfg =>
      obtain ⟨hf, hh⟩ := reload_lists cfg m
      refine hfree ⟨h.shrink (hf ▸ List.Sublist.refl _) (fun p _ hl => ?_)
        (fun p _ hin => hh ▸ hin) fun p _ => Or.inl (reload_work cfg m), fun p hp => hf ▸ hp⟩
      exact (reload_shift cfg m).workers ▸ hl
    | message q msg =>
      cases msg with
      | stopWork => exact hfree (stopWork_calm q h)
      | sendWork =>
        obtain ⟨hcalm, hsub⟩ := sendWork_calm h (hask q rfl) (hempty q)
        refine ⟨hcalm, fun p hp => (hsub p hp).imp_right ?_⟩
        rintro ⟨rfl, hc⟩
        exact ⟨rfl, hc⟩
      | recheck server =>
        apply hfree
        rcases recheck_cases q server m with ⟨_, _, he⟩ | ⟨_, _, he⟩ | ⟨_, he⟩ <;> rw [he]
        · exact ⟨h, fun p hp => hp⟩
        · refine ⟨?_, fun p hp => hp⟩
          exact h.shrink (List.Sublist.refl _) (fun _ _ hl => hl) (fun _ _ hh => hh)
            fun _ _ => Or.inl rfl
        · exact ⟨h.same rfl, fun p hp => hp⟩
      | stats stats checkStats =>
        have hkeep : Calm (m.keepStats q stats checkStats) := h.same rfl
        apply hfree
        rcases stats_cases q stats checkStats m with ⟨-, he⟩ | he <;> rw [he]
        · refine ⟨hkeep.assign _ (hempty q), fun p hp => ?_⟩
          rw [assignWorkToWorker_free] at hp
          exact hp
        · exact ⟨hkeep, fun p hp => hp⟩
      | totals | notifyStatusChange | notifyStillDown => exact hd.elim
    | workerExit q code fresh => exact hfree (workerExit_calm q code fresh h)
    | ensureWorkerCount fresh => exact hfree (ensureWorkerCount_calm fresh h)
    | queryDone k answer =>
      cases answer with
      | error => exact hd.elim
      | rows rows =>
        cases rows with
        | nil => exact hd.elim
        | cons row rest =>
          exact hfree (freeWorkersToWork_calm (filled_calm h k (row :: rest)))
    | processQueuedRetries =>
      have hsweep : Calm (Master.requestRetries m.sweepRetries.1 m.sweepRetries.2) := h.same rfl
      exact hfree (retryLocally_calm hsweep)
    | wait | roundTimer | restartTimer | updateStats | hostStatus => exact hd.elim
  · have hw := handle_workload m hd
    have hf : (handle m e).freeWorkers = m.freeWorkers := congrArg Workload.freeWorkers hw
    exact hfree ⟨h.same hw, fun p hp => hf ▸ hp⟩

theorem getMoreSites_inRound (m : Master) : m.getMoreSites.inRound = true := by
  simp only [Master.getMoreSites]
  split <;> rfl

theorem fetch_inRound (m : Master) :
    (fetch m).inRound = if m.gettingSites then m.inRound else true := by
  by_cases hg : m.gettingSites = true
  · rw [fetch, if_pos hg, if_pos hg]
  · rw [fetch, if_neg hg, if_neg hg, getMoreSites_inRound]

theorem fetch_completed (he : m.endOfRound = true) : (fetch m).gettingSites = true ∧
    (fetch m).endOfRound = true ∧ (fetch m).queries = m.queries := by
  by_cases hg : m.gettingSites = true
  · rw [fetch, if_pos hg]
    exact ⟨hg, he, rfl⟩
  · rw [fetch, if_neg hg]
    simp only [Master.getMoreSites]
    rw [if_pos he]
    exact ⟨rfl, he, rfl⟩

theorem sendWorkEnds_inRound (hend : sendWorkEnds p m) :
    m.inRound = true ∨ m.gettingSites = false := by
  have hround := hend.2.2.1
  obtain ⟨free, he⟩ := park_eq p m
  rw [fetch_inRound, he] at hround
  by_cases hg : m.gettingSites = true
  · rw [if_pos hg] at hround
    exact Or.inl hround
  · exact Or.inr (by simpa using hg)

/-- A request for work ends the round only if every other worker is free. -/
theorem sendWorkEnds_last (h : Calm m)
    (hask : ¬Crowded m → m.arrObjects = [] → p ∈ m.arrWorkers ∧ work m p = [])
    (hend : sendWorkEnds p m) : ∀ q ∈ m.arrWorkers, q = p ∨ q ∈ m.freeWorkers := by
  obtain ⟨hc, ha, hend⟩ := hend
  obtain ⟨hp, hw⟩ := hask hc ha
  obtain ⟨hpark, hsub⟩ := h.park hp hw
  have hsame := fetch_workload (park p m)
  have hf : (fetch (park p m)).freeWorkers = (park p m).freeWorkers :=
    congrArg Workload.freeWorkers hsame
  have hl : (fetch (park p m)).arrWorkers = m.arrWorkers := by
    obtain ⟨free, he⟩ := park_eq p m
    exact (congrArg Workload.arrWorkers hsame).trans (by rw [he]; rfl)
  have hall := (hpark.same hsame).all_free hend.2.2
  rw [hf, hl] at hall
  exact fun q hq => (hsub q (hall q hq)).symm

theorem freeLoopEnds_unknown (ps : List Pid) : ∀ {m : Master}, (∀ p ∈ ps, ¬Known m p) →
    ¬freeLoopEnds ps m := by
  induction ps with
  | nil => exact fun _ hend => hend
  | cons q rest ih =>
    intro m h
    have hq := h q (List.mem_cons_self ..)
    rw [freeLoopEnds, if_neg (mt (getWorker_isSome m q).mp hq)]
    exact ih fun p hp => h p (List.mem_cons_of_mem _ hp)

theorem freeLoopEnds_busy {b : Pid} (ps : List Pid) : ∀ {m : Master}, Calm m → Turns ps m →
    b ∈ m.arrWorkers → b ∉ m.freeWorkers → b ∉ ps → ¬freeLoopEnds ps m := by
  induction ps with
  | nil => exact fun _ _ _ _ _ hend => hend
  | cons q rest ih =>
    intro m h ht hb hf hps
    have hbq : b ≠ q := fun he => hps (he ▸ List.mem_cons_self ..)
    have hrest : b ∉ rest := fun hm => hps (List.mem_cons_of_mem _ hm)
    obtain ⟨hqf, hqa, hqw⟩ := ht.waiting q (List.mem_cons_self ..)
    rw [freeLoopEnds]
    split
    · rintro (hend | hend)
      · exact (sendWorkEnds_last h (fun _ _ => ⟨hqa, hqw⟩) hend b hb).elim hbq hf
      · obtain ⟨hcalm, hsub⟩ := sendWork_calm h (fun _ _ => ⟨hqa, hqw⟩) fun hc => absurd hc hqf
        refine ih hcalm (ht.tail h) (sendWork_arrWorkers q m ▸ hb) (fun hc => ?_) hrest hend
        exact (hsub b hc).elim hf fun hn => hbq hn.1
    · exact ih h ⟨(List.nodup_cons.mp ht.nodup).2,
        fun p hp => ht.waiting p (List.mem_cons_of_mem _ hp)⟩ hb hf hrest

theorem sendWork_free_of_work (ha : m.arrObjects ≠ []) :
    (m.sendWork p).freeWorkers = m.freeWorkers := by
  rcases sendWork_cases p m with ⟨_, he⟩ | ⟨_, hnil, _⟩ | ⟨_, _, he⟩
  · rw [he]
    split <;> rfl
  · exact absurd hnil ha
  · rw [he, assignWorkToWorker_free]

theorem freeLoopEnds_work (ps : List Pid) : ∀ {m : Master}, Calm m → Turns ps m →
    m.arrObjects ≠ [] → ¬freeLoopEnds ps m := by
  induction ps with
  | nil => exact fun _ _ _ hend => hend
  | cons q rest ih =>
    intro m h ht ha
    obtain ⟨hq, hrest⟩ := List.nodup_cons.mp ht.nodup
    obtain ⟨hqf, hqa, hqw⟩ := ht.waiting q (List.mem_cons_self ..)
    rw [freeLoopEnds]
    split
    · rintro (hend | hend)
      · exact ha hend.2.1
      · have hcalm := (sendWork_calm h (fun _ _ => ⟨hqa, hqw⟩) fun hc => absurd hc hqf).1
        refine freeLoopEnds_busy rest hcalm (ht.tail h) (sendWork_arrWorkers q m ▸ hqa) ?_ hq hend
        rw [sendWork_free_of_work ha]
        exact hqf
    · exact ih h ⟨hrest, fun p hp => ht.waiting p (List.mem_cons_of_mem _ hp)⟩ ha

/-- Only a message of a worker can end a round. -/
theorem endsRound_message {e : Event} (h : Calm m) (hend : EndsRound m e) :
    ∃ p msg, e = .message p msg := by
  cases e with
  | message p msg => exact ⟨p, msg, rfl⟩
  | queryDone k answer =>
    cases answer with
    | error => exact hend.elim
    | rows rows =>
      cases rows with
      | nil => exact hend.elim
      | cons row rest =>
        obtain ⟨ha, hloop⟩ := hend
        have hturns := (filled_calm h k (row :: rest)).turns
        exact absurd hloop (freeLoopEnds_work _ (.none rfl) hturns ha)
  | processQueuedRetries =>
    obtain ⟨hadded, _, hloop⟩ := hend
    exact absurd hloop (freeLoopEnds_unknown _ (retryLoop_stranded _ _ hadded))
  | wait | reload | workerExit | ensureWorkerCount | roundTimer | restartTimer | updateStats
  | hostStatus => exact hend.elim

/-- Between the end of a round and the timer that begins the next one, no batch is
outstanding and the fetch loop is not started again. -/
structure Reported (m : Master) : Prop where
  inRound : m.inRound = false
  gettingSites : m.gettingSites = true
  queries : m.queries = []

theorem Reported.congr (h : Reported m) (hr : m'.inRound = m.inRound)
    (hf : fetching m' = fetching m) : Reported m' := by
  have hg : m'.gettingSites = m.gettingSites := congrArg Fetching.gettingSites hf
  have hq : m'.queries = m.queries := congrArg Fetching.queries hf
  exact ⟨hr.trans h.inRound, hg.trans h.gettingSites, hq.trans h.queries⟩

theorem Reported.fetch (h : Reported m) : fetch m = m := if_pos h.gettingSites

theorem park_reported (p : Pid) (h : Reported m) : Reported (park p m) := by
  obtain ⟨free, he⟩ := park_eq p m
  rw [he]
  exact h.congr rfl rfl

theorem Reported.not_ending (h : Reported m) : ¬Ending m := by
  intro hend
  rw [Ending, h.inRound] at hend
  exact absurd hend.1 (by decide)

theorem Reported.maybeEndRound (h : Reported m) : m.maybeEndRound = m := if_neg h.not_ending

theorem sendWork_reported (p : Pid) (h : Reported m) :
    Reported (m.sendWork p) ∧ ¬sendWorkEnds p m := by
  have hpark := park_reported p h
  constructor
  · rcases sendWork_cases p m with ⟨_, he⟩ | ⟨_, _, he⟩ | ⟨_, _, he⟩ <;> rw [he]
    · split
      · exact h.congr rfl rfl
      · exact h
    · rw [hpark.fetch, hpark.maybeEndRound]
      exact hpark
    · rw [assignWorkToWorker_eq]
      split
      · exact h.congr rfl rfl
      · exact h
  · rintro ⟨_, _, hend⟩
    rw [hpark.fetch] at hend
    exact hpark.not_ending hend

theorem sendWorkEnds_after (hend : sendWorkEnds p m) (he : m.endOfRound = true)
    (hq : m.queries = []) : Reported (m.sendWork p) ∧ (m.sendWork p).endOfRound = true ∧
      (m.sendWork p).arrObjects = [] ∧
      (m.sendWork p).arrWorkers.length = (m.sendWork p).freeWorkers.length := by
  obtain ⟨hc, ha, hending⟩ := hend
  rcases sendWork_cases p m with ⟨hover, _⟩ | ⟨_, _, hsend⟩ | ⟨_, hne, _⟩
  · exact absurd hover hc
  · obtain ⟨free, hp⟩ := park_eq p m
    obtain ⟨hg, hr, hqs⟩ := fetch_completed (m := park p m) (by rw [hp]; exact he)
    rw [hsend, maybeEndRound_of_ending hending]
    refine ⟨⟨rfl, hg, hqs.trans ?_⟩, hr, List.length_eq_zero_iff.mp hending.2.1, hending.2.2⟩
    rw [hp]
    exact hq
  · exact absurd ha hne

theorem freeLoop_reported (ps : List Pid) : ∀ {m : Master}, Reported m →
    Reported (ps.foldl (fun m pid => if (m.getWorker pid).isSome then m.sendWork pid else m) m) ∧
      ¬freeLoopEnds ps m := by
  induction ps with
  | nil => exact fun h => ⟨h, fun hend => hend⟩
  | cons q rest ih =>
    intro m h
    obtain ⟨hsend, hnot⟩ := sendWork_reported q h
    rw [List.foldl_cons, freeLoopEnds]
    split
    · obtain ⟨hrest, hnot'⟩ := ih hsend
      exact ⟨hrest, fun hend => hend.elim hnot hnot'⟩
    · exact ih h

theorem freeWorkersToWork_reported (h : Reported m) :
    Reported m.freeWorkersToWork ∧ ¬freeWorkersToWorkEnds m := by
  have hnone : Reported { m with freeWorkers := [] } := h.congr rfl rfl
  obtain ⟨hloop, hnot⟩ := freeLoop_reported m.freeWorkers hnone
  refine ⟨?_, fun hend => hnot hend.2⟩
  rcases freeWorkersToWork_cases m with ⟨_, he⟩ | ⟨_, he, _⟩ <;> rw [he]
  · exact h
  · exact hloop

theorem retryLoop_reported (h : Reported m) (servers : List Site) :
    Reported (retryLoop m servers).1 := by
  refine retryLoop_invariant (I := Reported) (h.congr rfl rfl) ?_
  intro server _ m₁ m₂ h₁ hmove
  cases hmove with
  | keep | requeue | hand => exact h₁.congr rfl rfl

theorem deleteWorker_inRound (p : Pid) (m : Master) : (m.deleteWorker p).inRound = m.inRound := by
  unfold Master.deleteWorker
  split <;> rfl

theorem spawnWorker_inRound (p : Pid) (m : Master) : (m.spawnWorker p).inRound = m.inRound :=
  deleteWorker_inRound p (m.resetChannel p)

def Aside : Event → Prop
  | .message _ .sendWork | .message _ .stopWork | .queryDone _ _ | .roundTimer _
  | .restartTimer _ | .processQueuedRetries => False
  | _ => True

theorem handle_inRound (m : Master) {e : Event} (h : Aside e) :
    (handle m e).inRound = m.inRound := by
  cases e with
  | wait => rfl
  | reload cfg =>
    exact reload_invariant (I := fun m' => m'.inRound = m.inRound) rfl fun _ h _ _ => h
  | message p msg =>
    cases msg with
    | totals | notifyStatusChange | notifyStillDown => rfl
    | recheck server =>
      obtain ⟨_, _, _, he⟩ := recheck_eq p server m
      rw [he]
    | stats stats checkStats =>
      rcases stats_cases p stats checkStats m with ⟨-, he⟩ | he <;> rw [he]
      · rw [assignWorkToWorker_eq]
        split <;> rfl
      · rfl
    | sendWork | stopWork => exact h.elim
  | workerExit p code fresh =>
    exact workerExit_invariant (I := fun m' => m'.inRound = m.inRound)
      (deleteWorker_inRound p (m.resetChannel p)) fun _ _ h => (spawnWorker_inRound fresh _).trans h
  | ensureWorkerCount fresh =>
    exact ensureWorkerCount_invariant (I := fun m' => m'.inRound = m.inRound) rfl
      fun _ h p _ => (spawnWorker_inRound p _).trans h
  | updateStats =>
    simp only [handle, Master.updateStats, Master.clearCounters, Master.watchdog]
    split <;> rfl
  | hostStatus data =>
    simp only [handle, Master.checkHostStatus]
    split
    · rfl
    · split <;> rfl
  | queryDone | roundTimer | restartTimer | processQueuedRetries => exact h.elim

def Begins : Event → Prop
  | .roundTimer _ | .restartTimer _ => True
  | _ => False

theorem handle_reported {e : Event} (h : Reported m) (he : Enabled m e)
    (hb : ¬Begins e) : Reported (handle m e) ∧ ¬EndsRound m e := by
  by_cases ha : Aside e
  · have hr := handle_inRound m ha
    cases e with
    | wait | reload | workerExit | ensureWorkerCount | hostStatus =>
      exact ⟨h.congr hr (handle_fetching m fun hf => hf), fun hend => hend⟩
    | message p msg =>
      cases msg with
      | totals | notifyStatusChange | notifyStillDown | recheck | stats =>
        exact ⟨h.congr hr (handle_fetching m fun hf => hf), fun hend => hend⟩
      | sendWork | stopWork => exact ha.elim
    | updateStats =>
      refine ⟨⟨hr.trans h.inRound, ?_, ?_⟩, fun hend => hend⟩ <;>
        simp only [handle, Master.updateStats, Master.clearCounters, Master.watchdog]
      · split <;> exact h.gettingSites
      · split <;> exact h.queries
    | queryDone | roundTimer | restartTimer | processQueuedRetries => exact ha.elim
  · cases e with
    | message p msg =>
      cases msg with
      | sendWork => exact sendWork_reported p h
      | stopWork =>
        have hhalt : Reported (m.halt p) := by
          rcases halt_cases p m with ⟨_, _, he⟩ | ⟨_, he⟩ <;> rw [he]
          · exact h.congr rfl rfl
          · exact h
        refine ⟨?_, hhalt.not_ending⟩
        simp only [handle, Master.workerMsgCallback, Master.stopWork]
        rw [hhalt.maybeEndRound]
        exact hhalt
      | totals | notifyStatusChange | notifyStillDown | recheck | stats => exact absurd trivial ha
    | queryDone k answer =>
      -- no answer of the database is awaited
      have hk : k < m.queries.length := he
      rw [h.queries] at hk
      exact absurd hk (Nat.not_lt_zero k)
    | processQueuedRetries =>
      have hswept : Reported (Master.requestRetries m.sweepRetries.1 m.sweepRetries.2) :=
        h.congr rfl rfl
      have hloop := retryLoop_reported hswept m.localRetries
      obtain ⟨hfree, hnot⟩ := freeWorkersToWork_reported hloop
      refine ⟨?_, fun hend => hnot hend.2⟩
      change Reported (Master.retryLocally _)
      simp only [Master.retryLocally]
      split
      · exact hfree
      · exact hloop
    | roundTimer | restartTimer => exact absurd trivial hb
    | wait | reload | workerExit | ensureWorkerCount | updateStats | hostStatus =>
      exact absurd trivial ha

theorem sendWork_inRound (h : m.inRound = true) (hnot : ¬sendWorkEnds p m) :
    (m.sendWork p).inRound = true := by
  rcases sendWork_cases p m with ⟨_, he⟩ | ⟨hle, ha, he⟩ | ⟨_, _, he⟩
  · rw [he]
    split <;> exact h
  · have hpark : (park p m).inRound = true := by
      obtain ⟨free, hp⟩ := park_eq p m
      rw [hp]
      exact h
    have hfetch : (fetch (park p m)).inRound = true := by
      rw [fetch_inRound]
      split
      · exact hpark
      · rfl
    have hend : ¬Ending (fetch (park p m)) := by
      refine fun hend => hnot ⟨?_, ha, hend⟩
      simpa [Crowded] using hle
    rw [he, maybeEndRound_inRound, if_neg hend, hfetch]
  · rw [he, assignWorkToWorker_eq]
    split <;> exact h

theorem freeLoop_inRound (ps : List Pid) : ∀ {m : Master}, m.inRound = true →
    ¬freeLoopEnds ps m →
    (ps.foldl (fun m pid => if (m.getWorker pid).isSome then m.sendWork pid else m) m).inRound =
      true := by
  induction ps with
  | nil => exact fun h _ => h
  | cons q rest ih =>
    intro m h hnot
    rw [freeLoopEnds] at hnot
    rw [List.foldl_cons]
    by_cases hk : (m.getWorker q).isSome = true
    · rw [if_pos hk, not_or] at hnot
      rw [if_pos hk]
      exact ih (sendWork_inRound h hnot.1) hnot.2
    · rw [if_neg hk] at hnot
      rw [if_neg hk]
      exact ih h hnot

theorem freeWorkersToWork_inRound (h : m.inRound = true) (hnot : ¬freeWorkersToWorkEnds m) :
    m.freeWorkersToWork.inRound = true := by
  rcases freeWorkersToWork_cases m with ⟨_, he⟩ | ⟨ha, he, _⟩ <;> rw [he]
  · exact h
  · have hnone : ({ m with freeWorkers := [] } : Master).inRound = true := h
    exact freeLoop_inRound m.freeWorkers hnone fun hend => hnot ⟨ha, hend⟩

theorem retryLoop_inRound (m : Master) (servers : List Site) :
    (retryLoop m servers).1.inRound = m.inRound := by
  refine retryLoop_invariant (I := fun m' => m'.inRound = m.inRound) rfl ?_
  intro server _ m₁ m₂ h hmove
  cases hmove with
  | keep | requeue | hand => exact h

theorem endsRound_of_inRound {e : Event} (h : m.inRound = true)
    (hend : (handle m e).inRound = false) : EndsRound m e := by
  by_contra hnot
  refine absurd hend (Bool.not_eq_false _ ▸ ?_)
  by_cases ha : Aside e
  · rw [handle_inRound m ha, h]
  cases e with
  | message p msg =>
    cases msg with
    | sendWork => exact sendWork_inRound h hnot
    | stopWork =>
      have hhalt : (m.halt p).inRound = true := by
        rcases halt_cases p m with ⟨_, _, he⟩ | ⟨_, he⟩ <;> rw [he] <;> exact h
      have hkeep : ¬Ending (m.halt p) := hnot
      exact (maybeEndRound_inRound _).trans ((if_neg hkeep).trans hhalt)
    | totals | notifyStatusChange | notifyStillDown | recheck | stats => exact absurd trivial ha
  | queryDone k answer =>
    cases answer with
    | error => exact h
    | rows rows =>
      cases rows with
      | nil => exact getMoreSites_inRound _
      | cons row rest => exact freeWorkersToWork_inRound (m := filled m k (row :: rest)) h hnot
  | roundTimer | restartTimer => exact getMoreSites_inRound _
  | processQueuedRetries =>
    have hloop := retryLoop_inRound
      (Master.requestRetries m.sweepRetries.1 m.sweepRetries.2) m.localRetries
    change (Master.retryLocally _).inRound = true
    simp only [Master.retryLocally]
    split
    · exact freeWorkersToWork_inRound (hloop.trans h) fun hw => hnot ⟨‹_›, hw⟩
    · exact hloop.trans h
  | wait | reload | workerExit | ensureWorkerCount | updateStats | hostStatus =>
    exact absurd trivial ha

end RoundEnd
