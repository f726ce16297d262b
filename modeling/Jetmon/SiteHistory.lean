import Jetmon.SystemModel
import Jetmon.WorkerFlags

/-! The local checks of one server object. It is checked, reported, kept until it is due,
and checked again, until NUM_OF_CHECKS checks have failed; each result is appended to its
history, so what it has been through can be read off the object. -/
namespace SiteHistory

open SiteModel
open TransitionSystem
open MasterState
open WorkerState
open WorkerQueue
open WorkerFlags
open SystemModel

/-- A check may start once the pause after the one before is over. -/
def Spaced (gap : ℤ) (a b : LocalCheck) : Prop := a.finished + gap ≤ b.started

structure Failing (gap : ℤ) (site : Site) : Prop where
  down : ∀ c ∈ site.history, c.up = false
  spaced : site.history.IsChain (Spaced gap)
  recorded : site.checks.length = site.history.length
  lastCheck : site.lastCheck = site.history.getLast?.map LocalCheck.finished
  fetched : site.oldStatus = site.fetched.siteStatus

/-- The object may be checked at the time `now`. -/
structure Ready (n gap now : ℤ) (site : Site) : Prop extends Failing gap site where
  unfinished : site.history = [] ∨ (site.history.length : ℤ) < n
  due : ∀ c ∈ site.history.getLast?, c.finished + gap ≤ now

structure Waiting (n gap : ℤ) (site : Site) : Prop extends Failing gap site where
  unfinished : (site.history.length : ℤ) < n

structure Reported (n gap : ℤ) (site : Site) : Prop extends Failing gap site where
  running : site.oldStatus = .running
  checked : site.history ≠ []
  limit : (site.history.length : ℤ) ≤ max 1 n

structure Exhausted (n gap : ℤ) (site : Site) : Prop extends Failing gap site where
  running : site.oldStatus = .running
  checked : (site.history.length : ℤ) = max 1 n

variable {n gap now : ℤ} {site server : Site}

theorem ready_ofRow (row : Row) : Ready n gap now (Site.ofRow row) where
  down := nofun
  spaced := .nil
  recorded := rfl
  lastCheck := rfl
  fetched := rfl
  unfinished := Or.inl rfl
  due := nofun

theorem Ready.mono {now' : ℤ} (h : Ready n gap now site) (hle : now ≤ now') :
    Ready n gap now' site := by
  refine ⟨h.toFailing, h.unfinished, fun c hc => ?_⟩
  have := h.due c hc
  omega

theorem Waiting.ready {m : Master} (h : Waiting n gap site)
    (hgap : gap = m.config.timeBetweenChecksSec * seconds) (hd : m.retryDue site = true) :
    Ready n gap m.clock site := by
  refine ⟨h.toFailing, Or.inr h.unfinished, fun c hc => ?_⟩
  have hlast : site.lastCheck = some c.finished := by
    rw [h.lastCheck, hc]
    rfl
  simpa [Master.retryDue, hlast, hgap] using hd

theorem Reported.waiting (h : Reported n gap server) (hlt : (server.checks.length : ℤ) < n) :
    Waiting n gap { server with processed := false } := by
  obtain ⟨h₁, h₂, h₃, h₄, h₅⟩ := h.toFailing
  exact ⟨⟨h₁, h₂, h₃, h₄, h₅⟩, by rw [← h₃]; exact hlt⟩

theorem Reported.exhausted (h : Reported n gap server)
    (hge : ¬(server.checks.length : ℤ) < n) : Exhausted n gap server := by
  refine ⟨h.toFailing, h.running, ?_⟩
  have hpos := List.length_pos_iff.mpr h.checked
  have hlimit := h.limit
  rw [h.recorded] at hge
  omega

theorem judge_running {w : Worker} {res : Result} (h : site.oldStatus = .running) :
    w.judge now res site = .running ∨ w.judge now res site = .down := by
  unfold Worker.judge
  split
  · exact Or.inl rfl
  · rw [if_pos (Or.inl h)]
    exact Or.inr rfl

theorem judge_down {w : Worker} {res : Result} (h : w.judge now res site = .down)
    (hne : site.oldStatus ≠ .down) : site.oldStatus = .running := by
  unfold Worker.judge at h
  split at h
  · contradiction
  · split at h
    · rename_i hold
      rcases hold with hold | ⟨hold, _⟩
      · exact hold
      · cases hs : site.oldStatus with
        | running => rfl
        | down => exact absurd hs hne
        | confirmedDown => exact absurd hs hold
    · contradiction

def Sound (n gap : ℤ) : ToMaster → Prop
  | .recheck server => Reported n gap server
  | .notifyStatusChange server | .notifyStillDown server => server.oldStatus ≠ .running
  | .totals _ | .stopWork | .sendWork | .stats _ _ => True

theorem Ready.reported {w : Worker} {since : ℤ} {res : Result} (h : Ready n gap since site)
    (hj : w.judge now res site = .down) (hne : site.oldStatus ≠ .down) :
    Reported n gap (w.applyResult now since res site) := by
  have hrun := judge_down hj hne
  have hlen : (w.applyResult now since res site).history.length = site.history.length + 1 := by
    simp [Worker.applyResult]
  constructor
  · constructor
    · intro c hc
      rcases List.mem_append.mp hc with hc | hc
      · exact h.down c hc
      · rw [List.mem_singleton.mp hc, hj]
        rfl
    · refine List.isChain_append.mpr ⟨h.spaced, .singleton _, ?_⟩
      intro c hc d hd
      obtain rfl : _ = d := Option.some.inj hd
      exact h.due c hc
    · rw [hlen]
      simp [Worker.applyResult, hj, Ne.symm hne, h.recorded]
    · simp [Worker.applyResult]
    · exact h.fetched
  · exact hrun
  · simp [Worker.applyResult]
  · rw [hlen]
    rcases h.unfinished with hnil | hlt
    · rw [hnil, List.length_nil]
      omega
    · omega

/-- What the worker sends about an object that was ready is true of it. -/
theorem statusMessages_sound {w : Worker} {since : ℤ} {res : Result} (h : Ready n gap since site) :
    ∀ msg ∈ statusMessages (w.applyResult now since res site), Sound n gap msg := by
  intro msg hmsg
  unfold statusMessages at hmsg
  split at hmsg
  · rename_i hne
    have hne : w.judge now res site ≠ site.oldStatus := hne
    split at hmsg <;> rename_i hj <;> rw [List.mem_singleton.mp hmsg]
    · exact h.reported hj fun hold => hne (hj.trans hold.symm)
    · exact fun hold => hne (hj.trans hold.symm)
    · intro hold
      have hj : w.judge now res site = .confirmedDown := hj
      have hold : site.oldStatus = .running := hold
      rcases judge_running hold with hr | hr <;> exact absurd (hj.symm.trans hr) (by decide)
  · contradiction

/-- What the worker has not started may be checked now, and what it has started might be
checked then. -/
structure Tracked (n gap now : ℤ) (w : Worker) : Prop where
  waiting : ∀ site ∈ w.arrCheck.drop w.pointer, Ready n gap now site
  started : ∀ o ∈ w.outstanding, o.since ≤ now ∧ Ready n gap o.since o.site

theorem Tracked.mono {w : Worker} {now' : ℤ} (h : Tracked n gap now w) (hle : now ≤ now') :
    Tracked n gap now' w :=
  ⟨fun site hs => (h.waiting site hs).mono hle,
    fun o ho => ⟨(h.started o ho).1.trans hle, (h.started o ho).2⟩⟩

theorem boot_tracked {cfg : Config} {host : String} {at' seed : ℤ} :
    Tracked n gap now (Worker.boot cfg host at' seed) :=
  ⟨fun _ h => (by cases h), fun _ h => (by cases h)⟩

theorem queueAdd_tracked {w : Worker} {payload : List Site} (h : Tracked n gap now w)
    (hst : Invariant w) (hp : ∀ site ∈ payload, Ready n gap now site) :
    Tracked n gap now (WorkerState.handle w (.queueAdd payload)).1 := by
  simp only [WorkerState.handle, Worker.addToQueue]
  split
  · rename_i hrun
    refine ⟨fun site hs => ?_, h.started⟩
    rw [List.drop_append_of_le_length (hst.busy hrun).2.1] at hs
    rcases List.mem_append.mp hs with hs | hs
    · exact h.waiting site hs
    · exact hp site hs
  · exact ⟨hp, h.started⟩

theorem mem_startedFrom {p : ℕ} {sites : List Site} {o : Outstanding}
    (h : o ∈ startedFrom now p sites) : o.since = now ∧ o.site ∈ sites := by
  obtain ⟨⟨site, i⟩, hmem, rfl⟩ := List.mem_map.mp h
  exact ⟨rfl, List.fst_mem_of_mem_zipIdx hmem⟩

theorem checkTimer_tracked {w : Worker} (h : Tracked n gap now w)
    (hle : w.pointer ≤ w.arrCheck.length) :
    Tracked n gap now (WorkerState.handle w (.checkTimer now)).1 := by
  simp only [WorkerState.handle, Worker.checkServers]
  rw [startChecks_eq now _ (by dsimp only; omega)]
  constructor
  · intro site hs
    dsimp only at hs
    rw [← List.drop_drop] at hs
    exact h.waiting site (List.mem_of_mem_drop hs)
  · intro o ho
    rcases List.mem_append.mp ho with ho | ho
    · exact h.started o ho
    · obtain ⟨hsince, hsite⟩ := mem_startedFrom ho
      rw [hsince]
      exact ⟨le_refl now, h.waiting o.site (List.mem_of_mem_take hsite)⟩

theorem storeStats_tracked {w : Worker} (h : Tracked n gap now w) (status : SiteStatus)
    (res : Result) : Tracked n gap now (w.storeStats status res) := by
  unfold Worker.storeStats
  split
  · exact ⟨h.waiting, h.started⟩
  · exact h

theorem complete_tracked {w : Worker} (h : Tracked n gap now w) (hst : Invariant w)
    (hx : w.exit = none) {k : ℕ} {o : Outstanding} (hk : w.outstanding[k]? = some o)
    (res : Result) : Tracked n gap now (WorkerState.handle w (.complete k now res)).1 := by
  rw [handle_complete hst.toCore hk]
  apply storeStats_tracked
  generalize hserver : w.applyResult now o.since res o.site = server
  have hc : Core (noted w k o server) := core_finish hst.toCore hk (hserver ▸ rfl) _
  have hlt := hst.index_lt o (List.mem_of_getElem? hk)
  have hn : Tracked n gap now (noted w k o server) := by
    refine ⟨fun site hs => ?_, fun o' ho' => h.started o' (List.mem_of_mem_eraseIdx ho')⟩
    simp only [noted, Worker.noteResult, List.drop_set_of_lt hlt] at hs
    exact h.waiting site hs
  rcases continueQueue_cases hc hx now res.rss with ⟨hp, he⟩ | ⟨_, _, he⟩ | ⟨_, _, _, he⟩ |
    ⟨_, _, _, he⟩ <;> rw [he]
  · -- the next site is the first of those that wait
    have hdrop := List.drop_eq_getElem_cons hp
    rw [startCheck_eq now (List.getElem?_eq_getElem hp)]
    constructor
    · intro site hs
      exact hn.waiting site (hdrop ▸ List.mem_cons_of_mem _ hs)
    · intro o' ho'
      rcases List.mem_append.mp ho' with ho' | ho'
      · exact hn.started o' ho'
      · rw [List.mem_singleton.mp ho']
        exact ⟨le_refl now, hn.waiting _ (hdrop ▸ List.mem_cons_self ..)⟩
  · exact ⟨hn.waiting, hn.started⟩
  · exact ⟨hn.waiting, hn.started⟩
  · exact ⟨fun _ hs => by simp at hs, hn.started⟩

theorem own_tracked {w : Worker} {we : WorkerState.Event} (h : Tracked n gap now w)
    (hst : Status w) (he : WorkerState.Enabled w we) (hown : Own now we) :
    Tracked n gap now (WorkerState.handle w we).1 ∧
      ∀ msg ∈ (WorkerState.handle w we).2, Sound n gap msg := by
  cases we with
  | queueAdd | evaporate | configUpdate => exact hown.elim
  | checkTimer t =>
    obtain rfl : t = now := hown
    refine ⟨checkTimer_tracked h ?_, fun _ hmem => absurd hmem List.not_mem_nil⟩
    have hi := hst.1 he.1
    cases hr : w.running with
    | true => exact (hi.busy hr).2.1
    | false =>
      have := (hi.idle hr).2.2
      have := he.2
      omega
  | complete k t res =>
    obtain rfl : t = now := hown
    have hk := List.getElem?_eq_getElem he.2
    refine ⟨complete_tracked h (hst.1 he.1) he.1 hk res, ?_⟩
    obtain ⟨extra, hmsgs, ho⟩ := complete_outcome (hst.1 he.1) he.1 hk t res
    intro msg hmem
    rw [hmsgs] at hmem
    rcases List.mem_append.mp hmem with hmem | hmem
    · exact statusMessages_sound (h.started _ (List.getElem_mem he.2)).2 msg hmem
    · rcases ho.requests msg hmem with rfl | rfl <;> trivial
  | startup =>
    refine ⟨⟨h.waiting, h.started⟩, fun msg hmem => ?_⟩
    rw [List.mem_singleton.mp hmem]
    trivial
  | totalsTick =>
    refine ⟨⟨h.waiting, h.started⟩, fun msg hmem => ?_⟩
    simp only [WorkerState.handle, Worker.sendStats] at hmem
    split at hmem
    · rw [List.mem_singleton.mp hmem]
      trivial
    · contradiction
  | statsTick t rss =>
    refine ⟨⟨h.waiting, h.started⟩, fun msg hmem => ?_⟩
    rw [List.mem_singleton.mp hmem]
    trivial

theorem read_tracked {w : Worker} {msg : ToWorker} {cfg : Config} {seed : ℤ}
    (h : Tracked n gap now w) (hst : Status w)
    (he : WorkerState.Enabled w (receive cfg seed msg)) (hc : msg.Carries (Ready n gap now)) :
    Tracked n gap now (WorkerState.handle w (receive cfg seed msg)).1 ∧
      (WorkerState.handle w (receive cfg seed msg)).2 = [] := by
  cases msg with
  | queueAdd payload => exact ⟨queueAdd_tracked h (hst.1 he) hc.2, rfl⟩
  | evaporate =>
    simp only [receive, WorkerState.handle]
    split <;> exact ⟨⟨h.waiting, h.started⟩, rfl⟩
  | configUpdate => exact ⟨⟨h.waiting, h.started⟩, rfl⟩

end SiteHistory
