import Jetmon.StatusChanges

/-! The status of one site over any number of rounds. A notification writes its status to the row
of the site (DB_UPDATES_ENABLE), and the next object of the site is built from that row. The row
is read when nothing of the site is left in the program, as it is when a round takes longer than
the checks and the verifliers' answers for a site. -/
namespace StatusCycle

open SiteModel
open TransitionSystem
open MasterState
open MasterChannels
open MasterFrames
open SiteLedger
open Escalation hiding answer
open WorkerState
open WorkerQueue
open SystemModel
open SiteFlow
open StatusChanges

def rowKey (row : Row) : Key := (row.blogId, row.monitorUrl)

def postKey : Post → Key
  | .siteDown e => entryKey e
  | .statusChange server => siteKey server

def postStatus : Post → SiteStatus
  | .siteDown _ => .down
  | .statusChange server => server.siteStatus

variable (k : Key)

def postsAbout (posted : List Post) : List Post := posted.filter fun post => postKey post = k

/-- The status in the row when every notification has been written to it. -/
def rowStatus (init : SiteStatus) (posts : List Post) : SiteStatus :=
  (posts.getLast?.map postStatus).getD init

/-- The status graph. -/
def Edge : SiteStatus → SiteStatus → Prop
  | .running, .down | .down, .running | .down, .confirmedDown | .confirmedDown, .running => True
  | _, _ => False

/-- One notification after another: along an edge, or SITE_DOWN again for the same entry. -/
inductive Next (a b : Post) : Prop where
  | edge : Edge (postStatus a) (postStatus b) → Next a b
  | again {e e'} : a = .siteDown e → b = .siteDown e' → e.serial = e'.serial → Next a b

/-- The notifications are a path from the status `init`. -/
structure Path (init : SiteStatus) (posts : List Post) : Prop where
  steps : posts.IsChain Next
  first : ∀ post ∈ posts.head?, Edge init (postStatus post)

def Leads (init : SiteStatus) (posts : List Post) (post : Post) : Prop :=
  Edge (rowStatus init posts) (postStatus post) ∨ ∃ a ∈ posts.getLast?, Next a post

theorem Path.append {init : SiteStatus} {posts : List Post} {post : Post} (h : Path init posts)
    (hl : Leads init posts post) : Path init (posts ++ [post]) := by
  have hlast : ∀ a ∈ posts.getLast?, Next a post := by
    intro a ha
    rcases hl with hedge | ⟨b, hb, hnext⟩
    · rw [rowStatus, Option.mem_def.mp ha] at hedge
      exact .edge hedge
    · rwa [Option.mem_unique ha hb]
  refine ⟨?_, ?_⟩
  · refine List.isChain_append.mpr ⟨h.steps, .singleton _, fun a ha b hb => ?_⟩
    obtain rfl : post = b := Option.some.inj hb
    exact hlast a ha
  · intro b hb
    cases posts with
    | nil =>
      obtain rfl : post = b := Option.some.inj hb
      rcases hl with hedge | ⟨a, ha, _⟩
      · exact hedge
      · contradiction
    | cons a rest => exact h.first b hb

def tag (e : RetryEntry) : Key × ℕ := (entryKey e, e.serial)

def escalated (m : Master) : MasterState.Event → List (Key × ℕ)
  | .message _ (.recheck server) =>
    if (server.checks.length : ℤ) < m.config.numOfChecks then []
    else [(siteKey server, m.nextSerial)]
  | _ => []

theorem handle_tags (m : Master) (me : MasterState.Event) :
    ((MasterState.handle m me).queuedRetries.map tag).Sublist
      (m.queuedRetries.map tag ++ escalated m me) := by
  have hsame : (MasterState.handle m me).queuedRetries.map tag = m.queuedRetries.map tag →
      ((MasterState.handle m me).queuedRetries.map tag).Sublist
        (m.queuedRetries.map tag ++ escalated m me) := by
    intro h
    rw [h]
    exact List.sublist_append_left _ _
  cases handle_change m me with
  | same he =>
    have hq : (MasterState.handle m me).queuedRetries = m.queuedRetries :=
      congrArg Escalations.queuedRetries he
    exact hsame (by rw [hq])
  | requested hge he =>
    rw [he, escalated, if_neg hge]
    simp only [Master.hostCheckRequest, List.map_append, List.map_cons, List.map_nil]
    exact List.Sublist.refl _
  | notified _ _ he =>
    apply hsame
    rw [he]
    rfl
  | swept hq =>
    rw [hq]
    exact (swept_map_sublist fun _ => rfl).trans (List.sublist_append_left _ _)
  | @credited data before e after m' hq _ he =>
    apply hsame
    rw [he, hq]
    unfold crediting
    dsimp only
    split <;> simp [tag, entryKey, RetryEntry.count]

def ofKey (sites : List Site) : ℕ := sites.countP fun site => siteKey site = k

def saidOf (s : System) (p : Pid) : ℕ := ofKey k ((s.toMaster p).filterMap subject)

def stockOf (F : Finset Pid) (s : System) : ℕ := (stock F s).countP fun site => siteKey site = k

def entriesOf (m : Master) : ℕ := m.queuedRetries.countP fun e => entryKey e = k

/-- What there is of the site: objects to be checked, messages about it, and entries. -/
def load (F : Finset Pid) (s : System) : ℕ :=
  stockOf k F s + ∑ p ∈ F, saidOf k s p + entriesOf k s.master

def known (s : System) : List Pid := s.master.arrWorkers ++ s.departed.map Departed.pid

def Settled (s : System) : Prop := load k (known s).toFinset s = 0

instance (s : System) : Decidable (Settled k s) := by
  unfold Settled
  infer_instance

def heard (s : System) : SystemModel.Event → List Site
  | .hear q => ((s.toMaster q).head?.bind subject).toList
  | .master _ _ | .deliver _ _ _ | .worker _ _ | .crash _ _ => []

def fetched : SystemModel.Event → List Site
  | .master (.queryDone _ (.rows rows)) _ => rows.map Site.ofRow
  | _ => []

def notified (s : System) : SystemModel.Event → List Site
  | .hear q =>
    match (s.toMaster q).head? with
    | some (.notifyStatusChange server) | some (.notifyStillDown server) => [server]
    | _ => []
  | .master _ _ | .deliver _ _ _ | .worker _ _ | .crash _ _ => []

def escalatedIn (s : System) (e : SystemModel.Event) : List (Key × ℕ) :=
  (masterEvent s e).toList.flatMap (escalated s.master)

def involved : SystemModel.Event → Finset Pid
  | .worker q _ | .hear q => {q}
  | .master _ _ | .deliver _ _ _ | .crash _ _ => ∅

variable {s : System} {e : SystemModel.Event} {k}

theorem actor_involved (e : SystemModel.Event) : actor e ⊆ involved e := by
  cases e with
  | worker q we => exact subset_rfl
  | master | hear | deliver | crash => exact Finset.empty_subset _

theorem saidOf_congr {s' : System} {p : Pid} (h : s'.toMaster p = s.toMaster p) :
    saidOf k s' p = saidOf k s p := by
  rw [saidOf, saidOf, h]

theorem next_said (hr : Reachable SystemModel.machine Unrestricted s)
    (he : SystemModel.Enabled s e) {F : Finset Pid} (hF : involved e ⊆ F) :
    ∑ p ∈ F, saidOf k (SystemModel.next s e) p + ofKey k (heard s e) ≤
      ∑ p ∈ F, saidOf k s p + ofKey k (reported s e) := by
  have hquiet : (∀ p, (SystemModel.next s e).toMaster p = s.toMaster p) → heard s e = [] →
      ∑ p ∈ F, saidOf k (SystemModel.next s e) p + ofKey k (heard s e) ≤
        ∑ p ∈ F, saidOf k s p + ofKey k (reported s e) := by
    intro hsame hnone
    rw [hnone, Finset.sum_congr rfl fun p _ => saidOf_congr (hsame p)]
    exact Nat.le_add_right _ _
  have hone : ∀ q ∈ F, (∀ p, p ≠ q → (SystemModel.next s e).toMaster p = s.toMaster p) →
      saidOf k (SystemModel.next s e) q + ofKey k (heard s e) ≤
        saidOf k s q + ofKey k (reported s e) →
      ∑ p ∈ F, saidOf k (SystemModel.next s e) p + ofKey k (heard s e) ≤
        ∑ p ∈ F, saidOf k s p + ofKey k (reported s e) := by
    intro q hq hother hle
    have hrest : ∑ p ∈ F.erase q, saidOf k (SystemModel.next s e) p =
        ∑ p ∈ F.erase q, saidOf k s p :=
      Finset.sum_congr rfl fun p hp => saidOf_congr (hother p (Finset.ne_of_mem_erase hp))
    rw [← Finset.add_sum_erase F _ hq, ← Finset.add_sum_erase F _ hq, hrest]
    omega
  cases e with
  | master me launch => exact hquiet (fun _ => rfl) rfl
  | hear q =>
    apply hone q (hF (Finset.mem_singleton_self q))
    · intro p hp
      simp only [SystemModel.next, System.hear]
      split
      · rfl
      · exact if_neg hp
    · simp only [SystemModel.next, System.hear, heard]
      split
      · rename_i hnil
        simp [hnil, ofKey]
      · rename_i msg rest hread
        simp only [saidOf, hread, ↓reduceIte, List.head?_cons, Option.bind_some]
        cases hsub : subject msg with
        | none => simp [hsub, ofKey]
        | some server => simp [hsub, ofKey, List.countP_cons]
  | deliver q cfg seed =>
    apply hquiet
    · intro p
      simp only [SystemModel.next]
      split
      · rfl
      · simp only [System.act]
        split
        · rfl
        · simp only [receive_silent, List.append_nil, ite_self]
          rfl
    · rfl
  | worker q we =>
    obtain ⟨x, hx, _, _, hen⟩ := he
    have hx : s.processes q = some x := hx
    have hst : Status x.worker := reachable_status (worker_reachable hr hx)
    have hsaid : ofKey k ((WorkerState.handle x.worker we).2.filterMap subject) ≤
        ofKey k (completed x.worker we) := by
      rcases handle_subjects hst hen with hnone | ⟨j, now, res, o, rfl, hj, hsub⟩
      · rw [hnone]
        exact Nat.zero_le _
      · rw [hsub]
        simp only [completed, List.getElem?_map, hj, Option.map_some, Option.toList_some]
        exact le_of_eq rfl
    apply hone q (hF (Finset.mem_singleton_self q))
    · intro p hp
      rw [SystemModel.next, act_eq hx]
      exact if_neg hp
    · rw [SystemModel.next, act_eq hx]
      simp only [saidOf, ↓reduceIte, heard, reported, hx, Option.toList_some, List.flatMap_cons,
        List.flatMap_nil, List.append_nil, List.filterMap_append, ofKey, List.countP_append,
        List.countP_nil, Nat.add_zero]
      exact Nat.add_le_add_left hsaid _
  | crash q code => exact hquiet (fun _ => rfl) rfl

theorem next_entries (he : SystemModel.Enabled s e) :
    ((SystemModel.next s e).master.queuedRetries.map tag).Sublist
      (s.master.queuedRetries.map tag ++ escalatedIn s e) := by
  cases next_ran he with
  | own hm =>
    rw [hm]
    simpa [escalatedIn, masterEvent] using handle_tags s.master _
  | @heard q msg rest _ hread hm =>
    rw [hm]
    simpa [escalatedIn, masterEvent, hread] using handle_tags s.master (.message q msg)
  | idle _ hm =>
    rw [hm]
    exact List.sublist_append_left _ _

theorem entriesOf_tags (m : Master) :
    entriesOf k m = (m.queuedRetries.map tag).countP fun t => t.1 = k := by
  rw [entriesOf, List.countP_map]
  rfl

theorem taken_le (he : SystemModel.Enabled s e) :
    ofKey k (taken s e) + (escalatedIn s e).countP (fun t => t.1 = k) + ofKey k (notified s e) ≤
      ofKey k (heard s e) + ofKey k (fetched e) := by
  cases e with
  | master me launch =>
    have hobs := he.2.1
    cases me with
    | message => exact hobs.elim
    | queryDone j answer =>
      cases answer with
      | rows rows =>
        simp [taken, received, escalatedIn, masterEvent, escalated, notified, heard, fetched, ofKey]
      | error => simp [taken, received, escalatedIn, masterEvent, escalated, notified, ofKey]
    | wait | reload | workerExit | ensureWorkerCount | roundTimer | restartTimer | updateStats
    | processQueuedRetries | hostStatus =>
      simp [taken, received, escalatedIn, masterEvent, escalated, notified, ofKey]
  | hear q =>
    cases hread : s.toMaster q with
    | nil => simp [taken, escalatedIn, masterEvent, notified, hread, ofKey]
    | cons msg rest =>
      simp only [taken, escalatedIn, masterEvent, notified, heard, fetched, hread, List.head?_cons,
        Option.toList_some, List.flatMap_cons, List.flatMap_nil, List.append_nil, Option.map_some,
        Option.bind_some]
      cases msg with
      | recheck server =>
        by_cases hlt : (server.checks.length : ℤ) < s.master.config.numOfChecks
        · simp only [received, escalated, hlt, true_and, ↓reduceIte, subject, ofKey]
          split
          · exact le_of_eq rfl
          · exact Nat.zero_le _
        · simp [received, escalated, hlt, subject, ofKey, List.countP_cons]
      | notifyStatusChange server | notifyStillDown server =>
        simp [received, escalated, subject, ofKey]
      | totals | stopWork | sendWork | stats => simp [received, escalated, subject, ofKey]
  | deliver | worker | crash => simp [taken, escalatedIn, masterEvent, notified, ofKey]

/-- Only the database brings more of a site, and a notification ends what there is of it. -/
theorem next_load (hr : Reachable SystemModel.machine Unrestricted s)
    (he : SystemModel.Enabled s e) {F : Finset Pid} (hF : involved e ⊆ F) :
    load k F (SystemModel.next s e) + ofKey k (notified s e) ≤
      load k F s + ofKey k (fetched e) := by
  have hstock := Multiset.countP_le_of_le (fun site => siteKey site = k)
    (next_stock hr he ((actor_involved e).trans hF))
  have hsaid := next_said (k := k) hr he hF
  have hentries := (next_entries he).countP_le (p := fun t => t.1 = k)
  have htaken := taken_le (k := k) he
  simp only [Multiset.countP_add, Multiset.coe_countP] at hstock
  rw [List.countP_append, ← entriesOf_tags, ← entriesOf_tags] at hentries
  simp only [load, stockOf, ofKey] at hsaid htaken ⊢
  omega

theorem load_mono {F G : Finset Pid} (h : F ⊆ G) (s : System) : load k F s ≤ load k G s := by
  have hstock : stockOf k F s ≤ stockOf k G s := Multiset.countP_le_of_le _ (stock_mono h s)
  have hsaid : ∑ p ∈ F, saidOf k s p ≤ ∑ p ∈ G, saidOf k s p := Finset.sum_le_sum_of_subset h
  unfold load
  omega

def Single (k : Key) (s : System) : Prop := ∀ F, load k F s ≤ 1

def Clear (k : Key) (s : System) : Prop := ∀ F, load k F s = 0

theorem Clear.objects (h : Clear k s) {P : Site → Prop} :
    Throughout (fun site => siteKey site = k → P site) s := by
  intro F site hsite hkey
  have hpos : 0 < stockOf k F s := Multiset.countP_pos.mpr ⟨site, hsite, by simpa using hkey⟩
  have hzero := h F
  unfold load at hzero
  omega

theorem Clear.messages (h : Clear k s) {p : Pid} {msg : ToMaster} (hmsg : msg ∈ s.toMaster p)
    {server : Site} (hsub : subject msg = some server) : siteKey server ≠ k := by
  intro hkey
  have hpos : 0 < saidOf k s p := by
    apply List.countP_pos_iff.mpr
    exact ⟨server, List.mem_filterMap.mpr ⟨msg, hmsg, hsub⟩, by simpa using hkey⟩
  have hzero := h {p}
  rw [load, Finset.sum_singleton] at hzero
  omega

theorem Clear.entries (h : Clear k s) {e : RetryEntry} (he : e ∈ s.master.queuedRetries) :
    entryKey e ≠ k := by
  intro hkey
  have hpos : 0 < entriesOf k s.master := List.countP_pos_iff.mpr ⟨e, he, by simpa using hkey⟩
  have hzero := h ∅
  unfold load at hzero
  omega

theorem live_known (hr : Roster s) {p : Pid} {x : Process} (hx : s.processes p = some x) :
    p ∈ known s := by
  have hcount := ((hr p).listed x hx).2
  exact List.mem_append_left _ (List.count_pos_iff.mp (by omega))

theorem known_live (hr : Roster s) {p : Pid} (hp : p ∈ known s) :
    (∃ x, s.processes p = some x) ∨ p ∈ s.departed.map Departed.pid := by
  rcases List.mem_append.mp hp with hp | hp
  · left
    cases hx : s.processes p with
    | some x => exact ⟨x, rfl⟩
    | none => exact absurd hp ((hr p).gone hx).listed
  · exact Or.inr hp

theorem departed_subset (s : System) (e : SystemModel.Event) :
    s.departed ⊆ (SystemModel.next s e).departed := by
  have hact : ∀ (t : System) q we, (t.act q we).departed = t.departed := by
    intro t q we
    unfold System.act
    split <;> rfl
  intro d hd
  cases e with
  | master me launch => exact List.mem_append_left _ hd
  | hear q =>
    simp only [SystemModel.next, System.hear]
    split <;> exact hd
  | deliver q cfg seed =>
    simp only [SystemModel.next]
    split
    · exact hd
    · rw [hact]
      exact hd
  | worker q we =>
    rw [SystemModel.next, hact]
    exact hd
  | crash q code => exact hd

theorem next_known (hr : Roster s) (he : SystemModel.Enabled s e) {p : Pid} (hp : p ∈ known s) :
    p ∈ known (SystemModel.next s e) := by
  have hlive : ∀ x, (SystemModel.next s e).processes p = some x →
    p ∈ known (SystemModel.next s e) :=
    fun x hx => live_known (step_roster hr he) hx
  have hact : ∀ {t : System} (q : Pid) (we : WorkerState.Event) {x : Process},
      t.processes p = some x → ∃ y, (t.act q we).processes p = some y := by
    intro t q we x hx
    unfold System.act
    split
    · exact ⟨x, hx⟩
    · dsimp only
      split
      · exact ⟨_, rfl⟩
      · exact ⟨x, hx⟩
  rcases known_live hr hp with ⟨x, hx⟩ | hgone
  · cases e with
    | master me launch =>
      by_cases hspawn : p ∈ me.spawned
      · exact hlive _ (if_pos hspawn)
      · by_cases hend : p ∈ ended me
        · have hseen : s.lastSeen p =
              some ⟨p, s.master.handed p, x.worker.finished, s.master.pipe p⟩ := by
            rw [System.lastSeen, hx]
            rfl
          have hmem : ∃ d ∈ (SystemModel.next s (.master me launch)).departed, d.pid = p :=
            ⟨_, List.mem_append_right _ (List.mem_filterMap.mpr ⟨p, hend, hseen⟩), rfl⟩
          exact List.mem_append_right _ (List.mem_map.mpr hmem)
        · exact hlive x ((if_neg hspawn).trans ((if_neg hend).trans hx))
    | hear q =>
      have hsame : (SystemModel.next s (.hear q)).processes = s.processes := by
        simp only [SystemModel.next, System.hear]
        split <;> rfl
      exact hlive x (by rw [hsame, hx])
    | deliver q cfg seed =>
      by_cases hpipe : ∃ msg rest, s.master.pipe q = msg :: rest
      · obtain ⟨msg, rest, hpipe⟩ := hpipe
        obtain ⟨y, hy⟩ := hact (t := s.read q) q (receive cfg seed msg) hx
        apply hlive y
        simp only [SystemModel.next, hpipe]
        exact hy
      · have hnil : s.master.pipe q = [] := by
          cases hq : s.master.pipe q with
          | nil => rfl
          | cons msg rest => exact absurd ⟨msg, rest, hq⟩ hpipe
        apply hlive x
        simp only [SystemModel.next, hnil]
        exact hx
    | worker q we =>
      obtain ⟨y, hy⟩ := hact q we hx
      exact hlive y hy
    | crash q code =>
      by_cases hq : p = q
      · exact hlive _ ((if_pos hq).trans (congrArg _ hx))
      · exact hlive x ((if_neg hq).trans hx)
  · refine List.mem_append_right _ ?_
    obtain ⟨d, hd, rfl⟩ := List.mem_map.mp hgone
    exact List.mem_map.mpr ⟨d, departed_subset s e hd, rfl⟩

theorem reachable_known {C : System → SystemModel.Event → Prop}
    (hr : Reachable SystemModel.machine C s) : ∀ p ∉ known s, s.toMaster p = [] := by
  refine reachable_invariant (I := fun s => ∀ p ∉ known s, s.toMaster p = []) ?_ ?_ hr
  · rintro s ⟨cfg, now, rfl⟩ p _
    rfl
  · intro s e hr ih he _ p hp
    have hroster := reachable_roster hr
    have hold := ih p (mt (next_known hroster he) hp)
    by_contra hne
    obtain ⟨msg, hmsg⟩ := List.exists_mem_of_ne_nil _ hne
    rcases next_messages (reachable_mono (fun _ _ _ => trivial) hr) he hmsg with hin | hsaid
    · rw [hold] at hin
      contradiction
    · obtain ⟨x, we, rfl, hx, _⟩ := hsaid
      exact hp (next_known (e := .worker p we) hroster he (live_known hroster hx))

theorem unknown_lane {C : System → SystemModel.Event → Prop}
    (hr : Reachable SystemModel.machine C s) {p : Pid} (hp : p ∉ known s) : lane s p = 0 := by
  have hroster := reachable_roster hr
  have hnone : s.processes p = none := by
    cases hx : s.processes p with
    | none => rfl
    | some x => exact absurd (live_known hroster hx) hp
  rw [lane, hnone, pipeSites, ((hroster p).gone hnone).pipe]
  rfl

theorem Settled.clear {C : System → SystemModel.Event → Prop}
    (hr : Reachable SystemModel.machine C s) (h : Settled k s) : Clear k s := by
  intro F
  have hstock : stock F s ≤ stock (known s).toFinset s := by
    unfold stock
    gcongr 1
    calc ∑ p ∈ F, lane s p = ∑ p ∈ F.filter (· ∈ known s), lane s p := by
          rw [Finset.sum_filter]
          refine Finset.sum_congr rfl fun p _ => ?_
          split
          · rfl
          · exact unknown_lane hr ‹_›
      _ ≤ ∑ p ∈ (known s).toFinset, lane s p := by
          apply Finset.sum_le_sum_of_subset
          intro p hp
          exact List.mem_toFinset.mpr (Finset.mem_filter.mp hp).2
  have hsaid : ∑ p ∈ F, saidOf k s p ≤ ∑ p ∈ (known s).toFinset, saidOf k s p := by
    calc ∑ p ∈ F, saidOf k s p = ∑ p ∈ F.filter (· ∈ known s), saidOf k s p := by
          rw [Finset.sum_filter]
          refine Finset.sum_congr rfl fun p _ => ?_
          split
          · rfl
          · rw [saidOf, reachable_known hr p ‹_›]
            rfl
      _ ≤ ∑ p ∈ (known s).toFinset, saidOf k s p := by
          apply Finset.sum_le_sum_of_subset
          intro p hp
          exact List.mem_toFinset.mpr (Finset.mem_filter.mp hp).2
  have hcount : stockOf k F s ≤ stockOf k (known s).toFinset s := Multiset.countP_le_of_le _ hstock
  unfold Settled load at h
  unfold load
  omega

/-- A batch has at most one row of the site, with the status of the last notification, and only
when nothing of the site is left. -/
def Fetch (k : Key) (init : SiteStatus) (s : System) (rows : List Row) : Prop :=
  (∀ row ∈ rows, rowKey row = k → row.siteStatus = rowStatus init (postsAbout k s.master.posted)) ∧
    (rows.countP (fun row => rowKey row = k) = 0 ∨
      rows.countP (fun row => rowKey row = k) = 1 ∧ Settled k s)

instance (k : Key) (init : SiteStatus) (s : System) (rows : List Row) :
    Decidable (Fetch k init s rows) := by
  unfold Fetch
  infer_instance

/-- The run condition. -/
def Cycle (k : Key) (init : SiteStatus) (s : System) : SystemModel.Event → Prop
  | .master (.queryDone _ (.rows rows)) _ => Fetch k init s rows
  | _ => True

instance (k : Key) (init : SiteStatus) (s : System) (e : SystemModel.Event) :
    Decidable (Cycle k init s e) := by
  unfold Cycle
  split <;> infer_instance

def Told (k : Key) (d : SiteStatus) : ToMaster → Prop
  | .recheck server => siteKey server = k → server.oldStatus = d ∧ d = .running
  | .notifyStatusChange server => siteKey server = k → d ≠ .running ∧ server.siteStatus = .running
  | .notifyStillDown server => siteKey server = k → d = .down
  | .totals _ | .stopWork | .sendWork | .stats _ _ => True

/-- An entry of a site that runs in the database, or that this entry has reported. -/
def Pending (init : SiteStatus) (posts : List Post) (e : Key × ℕ) : Prop :=
  rowStatus init posts = .running ∨ ∃ e', posts.getLast? = some (.siteDown e') ∧ e'.serial = e.2

structure Followed (k : Key) (init : SiteStatus) (posts : List Post) (s : System) : Prop where
  single : Single k s
  objects : Throughout (fun site => siteKey site = k → site.oldStatus = rowStatus init posts) s
  messages : ∀ p, ∀ msg ∈ s.toMaster p, Told k (rowStatus init posts) msg
  entries : ∀ e ∈ s.master.queuedRetries, entryKey e = k → Pending init posts (tag e)

variable {init : SiteStatus} {posts : List Post}

theorem Clear.followed (h : Clear k s) : Followed k init posts s where
  single F := by
    rw [h F]
    exact Nat.zero_le 1
  objects := h.objects
  messages p msg hmsg := by
    cases msg with
    | recheck server | notifyStatusChange server | notifyStillDown server =>
      exact fun hkey => absurd hkey (h.messages hmsg rfl)
    | totals | stopWork | sendWork | stats => trivial
  entries _ he hkey := absurd hkey (h.entries he)

theorem judge_told {w : Worker} {now since : ℤ} {res : Result} {site : Site} {d : SiteStatus}
    (h : siteKey site = k → site.oldStatus = d) :
    ∀ msg ∈ statusMessages (w.applyResult now since res site), Told k d msg := by
  intro msg hmsg
  unfold statusMessages at hmsg
  split at hmsg
  case isFalse => contradiction
  case isTrue hne =>
    have hne : w.judge now res site ≠ site.oldStatus := hne
    split at hmsg <;> rename_i hj <;> rw [List.mem_singleton.mp hmsg] <;> intro hkey
    · have hold : site.oldStatus = d := h hkey
      have hrun := SiteHistory.judge_down hj fun hdown => hne (Eq.trans hj hdown.symm)
      exact ⟨hold, hold ▸ hrun⟩
    · have hold : site.oldStatus = d := h hkey
      exact ⟨fun hrun => hne (Eq.trans hj (hold.trans hrun).symm), hj⟩
    · have hold : site.oldStatus = d := h hkey
      have hdown := judge_confirmed hj fun hconf => hne (Eq.trans hj hconf.symm)
      exact hold ▸ hdown.1

theorem fetched_load (hr : Reachable SystemModel.machine Unrestricted s) (hsingle : Single k s)
    (he : SystemModel.Enabled s e) (hc : Cycle k init s e) : Single k (SystemModel.next s e) := by
  intro F
  have hsub : F ⊆ F ∪ involved e := Finset.subset_union_left
  have hin : involved e ⊆ F ∪ involved e := Finset.subset_union_right
  have hmono := load_mono (k := k) hsub (SystemModel.next s e)
  have hnext := next_load (k := k) hr he hin
  have hfetch : ofKey k (fetched e) = 0 ∨ ofKey k (fetched e) = 1 ∧ Clear k s := by
    cases e with
    | master me launch =>
      cases me with
      | queryDone j answer =>
        cases answer with
        | rows rows =>
          have hcount : ofKey k (fetched (.master (.queryDone j (.rows rows)) launch)) =
              rows.countP fun row => rowKey row = k := by
            rw [fetched, ofKey, List.countP_map]
            rfl
          rw [hcount]
          exact hc.2.imp_right fun h => ⟨h.1, h.2.clear hr⟩
        | error => exact Or.inl rfl
      | message | wait | reload | workerExit | ensureWorkerCount | roundTimer | restartTimer
      | updateStats | processQueuedRetries | hostStatus => exact Or.inl rfl
    | hear | deliver | worker | crash => exact Or.inl rfl
  rcases hfetch with hzero | ⟨hone, hclear⟩
  · have hold := hsingle (F ∪ involved e)
    omega
  · have hold := hclear (F ∪ involved e)
    omega

theorem step_quiet (hr : Reachable SystemModel.machine Unrestricted s)
    (h : Followed k init posts s) (hposts : posts = postsAbout k s.master.posted)
    (he : SystemModel.Enabled s e) (hc : Cycle k init s e) :
    Followed k init posts (SystemModel.next s e) where
  single := fetched_load hr h.single he hc
  objects := by
    apply next_throughout hr he h.objects
    intro site hsite hkey
    obtain ⟨me, hme, hrec⟩ := taken_masterEvent hsite
    rcases received_cases hrec with ⟨j, rows, row, rfl, hrow, rfl⟩ | ⟨pid, server, rfl, rfl⟩
    · cases e with
      | master me launch =>
        obtain rfl := Option.some.inj hme
        rw [hposts]
        exact hc.1 row hrow hkey
      | hear q =>
        obtain ⟨_, _, heq⟩ := Option.map_eq_some_iff.mp hme
        contradiction
      | deliver | worker | crash => contradiction
    · have htold := h.messages pid _ (masterEvent_message he hme).1
      exact (htold hkey).1
  messages p msg hmsg := by
    rcases next_messages hr he hmsg with hold | ⟨x, we, rfl, hx, hsays⟩
    · exact h.messages p msg hold
    · cases hsays with
      | aside hnone =>
        cases msg with
        | recheck | notifyStatusChange | notifyStillDown => contradiction
        | totals | stopWork | sendWork | stats => trivial
      | @result j now res o hwe hj hmem =>
        have hin : o.site ∈ reported s (.worker p we) := by
          simp [reported, hx, hwe, completed, hj]
        exact judge_told (h.objects _ _ (reported_stock hr he o.site hin)) msg hmem
  entries e' he' hkey := by
    have hmem := (next_entries he).subset (List.mem_map_of_mem he')
    rcases List.mem_append.mp hmem with hmem | hmem
    · obtain ⟨e₀, he₀, htag⟩ := List.mem_map.mp hmem
      have hkey₀ : entryKey e₀ = k := (congrArg Prod.fst htag).trans hkey
      rw [← htag]
      exact h.entries e₀ he₀ hkey₀
    · -- a new entry is made for a site that runs in the database
      obtain ⟨me, hme, hesc⟩ := List.mem_flatMap.mp hmem
      have hme := Option.mem_toList.mp hme
      left
      cases me with
      | message pid msg =>
        cases msg with
        | recheck server =>
          simp only [escalated] at hesc
          split at hesc
          · contradiction
          · have htag := List.mem_singleton.mp hesc
            have hserver : siteKey server = k := (congrArg Prod.fst htag).symm.trans hkey
            have htold := h.messages pid _ (masterEvent_message he hme).1
            exact (htold hserver).2
        | totals | notifyStatusChange | notifyStillDown | stopWork | sendWork | stats =>
          contradiction
      | queryDone | wait | reload | workerExit | ensureWorkerCount | roundTimer | restartTimer
      | updateStats | processQueuedRetries | hostStatus => contradiction

theorem notified_clear (hr : Reachable SystemModel.machine Unrestricted s) (hsingle : Single k s)
    (he : SystemModel.Enabled s e) (hnot : ofKey k (notified s e) = 1) (hfetch : fetched e = []) :
    Clear k (SystemModel.next s e) := by
  intro F
  have hsub : F ⊆ F ∪ involved e := Finset.subset_union_left
  have hin : involved e ⊆ F ∪ involved e := Finset.subset_union_right
  have hmono := load_mono (k := k) hsub (SystemModel.next s e)
  have hnext := next_load (k := k) hr he hin
  have hold := hsingle (F ∪ involved e)
  rw [hfetch, hnot] at hnext
  simp only [ofKey, List.countP_nil] at hnext
  omega

theorem hear_notified {pid : Pid} {msg : ToMaster} {server : Site}
    (hme : .message pid msg ∈ masterEvent s (.hear pid)) (hkey : siteKey server = k)
    (hmsg : msg = .notifyStatusChange server ∨ msg = .notifyStillDown server) :
    ofKey k (notified s (.hear pid)) = 1 := by
  obtain ⟨msg', hread, heq⟩ := Option.map_eq_some_iff.mp hme
  obtain rfl : msg' = msg := by simpa using heq
  rcases hmsg with rfl | rfl <;> simp [notified, hread, ofKey, hkey]

theorem eq_of_countP_le_one {α : Type*} {p : α → Bool} {l : List α} (h : l.countP p ≤ 1) {a b : α}
    (ha : a ∈ l) (hpa : p a = true) (hb : b ∈ l) (hpb : p b = true) : a = b := by
  rw [List.countP_eq_length_filter] at h
  have ha : a ∈ l.filter p := List.mem_filter.mpr ⟨ha, hpa⟩
  have hb : b ∈ l.filter p := List.mem_filter.mpr ⟨hb, hpb⟩
  match hf : l.filter p with
  | [] =>
    rw [hf] at ha
    contradiction
  | [c] =>
    rw [hf] at ha hb
    rw [List.mem_singleton.mp ha, List.mem_singleton.mp hb]
  | c :: d :: rest =>
    rw [hf] at h
    simp at h

theorem step_down (hr : Reachable SystemModel.machine Unrestricted s)
    (h : Followed k init posts s) {data : Reply} {launch : Pid → Launch}
    (he : SystemModel.Enabled s (.master (.hostStatus data) launch)) {entry e' : RetryEntry}
    (hentry : entry ∈ s.master.queuedRetries) (hkey : entryKey entry = k)
    (hserial : e'.serial = entry.serial) :
    Followed k init (posts ++ [.siteDown e'])
      (SystemModel.next s (.master (.hostStatus data) launch)) := by
  have hone : 0 < entriesOf k s.master :=
    List.countP_pos_iff.mpr ⟨entry, hentry, by simpa using hkey⟩
  have hstock : ∀ F, stockOf k F s = 0 := by
    intro F
    have hle := h.single F
    unfold load at hle
    omega
  have hsaid : ∀ p, saidOf k s p = 0 := by
    intro p
    have hle := h.single {p}
    rw [load, Finset.sum_singleton] at hle
    omega
  have hcycle : Cycle k init s (.master (.hostStatus data) launch) := trivial
  refine ⟨fetched_load hr h.single he hcycle, ?_, ?_, ?_⟩
  · intro F site hsite hkey'
    have hle := Multiset.countP_le_of_le (fun site => siteKey site = k)
      (next_stock hr he (F := F) (Finset.empty_subset F))
    have hzero := hstock F
    have hpos : 0 < stockOf k F (SystemModel.next s (.master (.hostStatus data) launch)) :=
      Multiset.countP_pos.mpr ⟨site, hsite, by simpa using hkey'⟩
    simp only [Multiset.countP_add, Multiset.coe_countP, reported, taken, received,
      List.countP_nil] at hle
    unfold stockOf at hzero hpos
    omega
  · intro p msg hmsg
    have hsame : msg ∈ s.toMaster p := hmsg
    have hnone : ∀ server, subject msg = some server → siteKey server ≠ k := by
      intro server hsub hkey'
      have hpos : 0 < saidOf k s p := by
        apply List.countP_pos_iff.mpr
        exact ⟨server, List.mem_filterMap.mpr ⟨msg, hsame, hsub⟩, by simpa using hkey'⟩
      have hzero := hsaid p
      omega
    cases msg with
    | recheck server | notifyStatusChange server | notifyStillDown server =>
      exact fun hkey' => absurd hkey' (hnone server rfl)
    | totals | stopWork | sendWork | stats => trivial
  · intro e₁ he₁ hkey₁
    right
    refine ⟨e', by simp, ?_⟩
    have hmem := (next_entries he).subset (List.mem_map_of_mem he₁)
    rcases List.mem_append.mp hmem with hmem | hmem
    · obtain ⟨e₀, he₀, htag⟩ := List.mem_map.mp hmem
      have hkey₀ : entryKey e₀ = k := (congrArg Prod.fst htag).trans hkey₁
      have hle : entriesOf k s.master ≤ 1 := by
        have hle := h.single ∅
        unfold load at hle
        omega
      have hsame : e₀ = entry := eq_of_countP_le_one hle he₀ (by simpa using hkey₀) hentry
        (by simpa using hkey)
      have hserial₁ : entry.serial = e₁.serial := hsame ▸ congrArg Prod.snd htag
      exact hserial.trans hserial₁
    · simp [escalatedIn, masterEvent, escalated] at hmem

structure InStep (k : Key) (init : SiteStatus) (s : System) : Prop where
  followed : Followed k init (postsAbout k s.master.posted) s
  path : Path init (postsAbout k s.master.posted)

theorem step_inStep (hr : Reachable SystemModel.machine Unrestricted s) (h : InStep k init s)
    (he : SystemModel.Enabled s e) (hc : Cycle k init s e) :
    InStep k init (SystemModel.next s e) := by
  obtain ⟨new, hposted, hnew⟩ := next_posted he
  have hsplit : postsAbout k (SystemModel.next s e).master.posted =
      postsAbout k s.master.posted ++ postsAbout k new := by
    rw [hposted, postsAbout, List.filter_append]
    rfl
  have hquiet : postsAbout k new = [] → InStep k init (SystemModel.next s e) := by
    intro hnone
    rw [hnone, List.append_nil] at hsplit
    constructor <;> rw [hsplit]
    · exact step_quiet hr h.followed rfl he hc
    · exact h.path
  have hpost : ∀ post, new = [post] → postKey post = k →
      Leads init (postsAbout k s.master.posted) post →
      Followed k init (postsAbout k s.master.posted ++ [post]) (SystemModel.next s e) →
      InStep k init (SystemModel.next s e) := by
    rintro post rfl hkey hleads hfollowed
    have hone : postsAbout k [post] = [post] := by simp [postsAbout, hkey]
    rw [hone] at hsplit
    constructor <;> rw [hsplit]
    · exact hfollowed
    · exact h.path.append hleads
  rcases hnew with rfl | ⟨me, hme, hnew⟩
  · exact hquiet rfl
  · cases hnew with
    | nothing => exact hquiet rfl
    | @back pid server =>
      by_cases hkey : siteKey server = k
      · obtain ⟨hmsg, rfl⟩ := masterEvent_message he hme
        obtain ⟨hold, hstatus⟩ := h.followed.messages pid _ hmsg hkey
        refine hpost _ rfl hkey (Or.inl ?_) (Clear.followed ?_)
        · rw [postStatus, hstatus]
          cases hrow : rowStatus init (postsAbout k s.master.posted) with
          | running => exact absurd hrow hold
          | down | confirmedDown => trivial
        · exact notified_clear hr h.followed.single he (hear_notified hme hkey (Or.inl rfl)) rfl
      · exact hquiet (by simp [postsAbout, postKey, hkey])
    | @stillDown pid server =>
      by_cases hkey : siteKey server = k
      · obtain ⟨hmsg, rfl⟩ := masterEvent_message he hme
        have hrow := h.followed.messages pid _ hmsg hkey
        refine hpost _ rfl hkey (Or.inl ?_) (Clear.followed ?_)
        · rw [hrow]
          trivial
        · exact notified_clear hr h.followed.single he (hear_notified hme hkey (Or.inr rfl)) rfl
      · refine hquiet ?_
        have hne : siteKey { server with siteStatus := .confirmedDown } ≠ k := hkey
        simp [postsAbout, postKey, hne]
    | @down data before entry after hq =>
      have hentry : entry ∈ s.master.queuedRetries := by simp [hq]
      cases e with
      | master me launch =>
        obtain rfl := Option.some.inj hme
        by_cases hkey : entryKey entry = k
        · refine hpost _ rfl hkey ?_ (step_down hr h.followed he hentry hkey rfl)
          rcases h.followed.entries entry hentry hkey with hrow | ⟨e', hlast, hserial⟩
          · left
            rw [hrow]
            trivial
          · exact Or.inr ⟨_, hlast, .again rfl rfl hserial⟩
        · refine hquiet ?_
          have hne :
            entryKey { entry.count s.master.clock data with siteStatus := some .down } ≠ k :=
            hkey
          simp [postsAbout, postKey, hne]
      | hear q =>
        obtain ⟨_, _, heq⟩ := Option.map_eq_some_iff.mp hme
        contradiction
      | deliver | worker | crash => contradiction

theorem boot_inStep (cfg : Config) (now : ℤ) : InStep k init (System.boot cfg now) := by
  constructor
  · apply Clear.followed
    intro F
    have hsaid : ∀ p, saidOf k (System.boot cfg now) p = 0 := fun _ => rfl
    simp only [load, stockOf, boot_stock, hsaid, Finset.sum_const_zero]
    rfl
  · exact ⟨.nil, fun post hpost => absurd hpost (Option.not_mem_none post)⟩

/-- While the row of a site has the status of its last notification and is read only when nothing
of the site is left, the notifications of the site are a path through the status graph: no status
is reported twice in a row, but for SITE_DOWN by one escalation. -/
theorem notices_follow_status (hr : Reachable SystemModel.machine (Cycle k init) s) :
    Path init (postsAbout k s.master.posted) := by
  have h : InStep k init s := by
    refine reachable_invariant (I := InStep k init) ?_ ?_ hr
    · rintro s ⟨cfg, now, rfl⟩
      exact boot_inStep cfg now
    · intro s e hr h he hc
      exact step_inStep (reachable_mono (fun _ _ _ => trivial) hr) h he hc
  exact h.path

def oneCheck : Config := { oneWorker with numOfChecks := 1, peerOfflineLimit := 1 }

def downAndBack : List SystemModel.Event :=
  let launch : Pid → Launch := fun _ => ⟨oneCheck, "jetmon", 0⟩
  let row : SiteStatus → Row := fun status => ⟨1, "http://example.com", status, none⟩
  [.master (.ensureWorkerCount [7]) launch, .worker 7 .startup, .hear 7,
    .master (.queryDone 0 (.rows [row .running])) launch, .deliver 7 oneCheck 0,
    .worker 7 (.checkTimer 0), .worker 7 (.complete 0 0 ⟨0, 0, 1, 0⟩), .hear 7, .hear 7,
    .master .processQueuedRetries launch, .master (.hostStatus (offlineReply 0 0)) launch,
    .master .processQueuedRetries launch, .master (.queryDone 0 (.rows [row .down])) launch,
    .deliver 7 oneCheck 0, .worker 7 (.checkTimer 0),
    .worker 7 (.complete 0 0 ⟨1200, 200, 0, 0⟩), .hear 7]

theorem notices_follow_status_back :
    let s := SystemModel.machine.exec (System.boot oneCheck 0) downAndBack
    Path .running (postsAbout (1, "http://example.com") s.master.posted) ∧
      s.master.posted.map postStatus = [.down, .running] :=
  ⟨notices_follow_status (exec_reachable (.start ⟨_, _, rfl⟩) (by decide +kernel)),
    by decide +kernel⟩

end StatusCycle
