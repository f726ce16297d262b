import Jetmon.SystemModel
import Jetmon.WorkerFlags

/-! askedForWork in the worker and freeWorkers in the master are two halves of one
handshake. Between them lie the two channels, and work is also pushed on paths that answer
no request. -/
namespace WorkHandshake

open SiteModel
open TransitionSystem
open MasterState
open MasterDispatch
open MasterChannels
open WorkerState
open WorkerQueue
open WorkerFlags
open SystemModel

structure Handshake (s : System) (p : Pid) (f : Flags) : Prop where
  informed : .stopWork ∈ s.toMaster p ∨ p ∈ s.master.haltedWorkers → f.available = false
  begun : f.exit = none → f.running = true ∨ f.startup = true ∨ f.asked = true
  cared : f.exit = none → f.asked = true → f.available = true → f.suicide = false →
    Cared s.master p ∨ .sendWork ∈ s.toMaster p

variable {p : Pid} {s s' : System} {e : SystemModel.Event}

theorem Handshake.not_halted {f : Flags} (h : Handshake s p f) (ha : f.available = true) :
    p ∉ s.master.haltedWorkers := by
  intro hh
  rw [h.informed (Or.inr hh)] at ha
  contradiction

theorem Handshake.linked {f : Flags} (h : Handshake s p f) (hk : Known s.master p)
    (hl : Linked p s e s') (hread : ∀ msg ∈ s'.toMaster p, msg ∈ s.toMaster p)
    (hask : .sendWork ∈ s.toMaster p → .sendWork ∉ s'.toMaster p → p ∉ s.master.haltedWorkers →
      Cared s'.master p) : Handshake s' p f := by
  obtain ⟨msgs, hl, _⟩ := hl
  constructor
  · intro hstop
    exact h.informed (hstop.imp (hread _) hl.halted.mp)
  · exact h.begun
  · intro hx hasked ha hs
    have hh := h.not_halted ha
    rcases h.cared hx hasked ha hs with hc | hm
    · exact Or.inl (hl.cared hk hh hc)
    · by_cases hm' : .sendWork ∈ s'.toMaster p
      · exact Or.inr hm'
      · exact Or.inl (hask hm hm' hh)

theorem Handshake.acted {x : Process} {we : WorkerState.Event} (h : Handshake s p (flags x.worker))
    (hst : Status x.worker) (ha : Acted p s x we s')
    (hh : s'.master.haltedWorkers = s.master.haltedWorkers)
    (hc : (∀ payload, we ≠ .queueAdd payload) → we ≠ .evaporate → Cared s.master p →
      Cared s'.master p) :
    Handshake s' p (flags (WorkerState.handle x.worker we).1) := by
  have ht := handle_truthful hst ha.enabled
  have hx : (flags x.worker).exit = none := by
    have he := ha.enabled
    cases we <;> first | exact he | exact he.1
  constructor
  · intro hstop
    by_contra hav
    obtain ⟨hold, hnot⟩ := ht.available (by simpa using hav)
    rw [hh, ha.sent, List.mem_append] at hstop
    have hstop : .stopWork ∈ s.toMaster p ∨ p ∈ s.master.haltedWorkers := by
      rcases hstop with (hs | hs) | hs
      · exact Or.inl hs
      · exact absurd hs hnot
      · exact Or.inr hs
    rw [h.informed hstop] at hold
    contradiction
  · exact fun hx' => ht.begun hx' (h.begun hx)
  · intro hx' hasked hav hs
    rw [ha.sent, List.mem_append]
    rcases ht.asked hx' hasked with ⟨hold, hadd⟩ | hsend
    · obtain ⟨hs, hev⟩ := ht.suicide hx' hs
      rcases h.cared hx hold (ht.available hav).1 hs with hcared | hm
      · exact Or.inl (hc hadd hev hcared)
      · exact Or.inr (Or.inl hm)
    · exact Or.inr (Or.inr hsend)

theorem boot_handshake {launch : Launch} {now : ℤ} (hn : Newborn p s.master)
    (hm : s.toMaster p = []) : Handshake s p (flags (launch.start now).worker) := by
  constructor
  · rintro (hs | hs)
    · rw [hm] at hs
      contradiction
    · exact absurd hs hn.halted
  · exact fun _ => Or.inr (Or.inl rfl)
  · intro _ hask
    contradiction

theorem step_handshake (hr : Reachable SystemModel.machine Unrestricted s)
    (h : ∀ x, s.processes p = some x → Handshake s p (flags x.worker))
    (he : SystemModel.Enabled s e) {y : Process}
    (hy : (SystemModel.next s e).processes p = some y) :
    Handshake (SystemModel.next s e) p (flags y.worker) := by
  have hroster := reachable_roster hr
  have hknown : ∀ {x}, s.processes p = some x → Known s.master p := by
    intro x hx
    obtain ⟨hp, hc⟩ := (hroster p).listed x hx
    exact ⟨hp, List.count_pos_iff.mp (by omega)⟩
  cases next_seen hroster he p with
  | aside hx hm hl =>
    have hy := hx.symm.trans hy
    exact (h y hy).linked (hknown hy) hl (by rw [hm]; exact fun _ h => h)
      fun hs hn => absurd hs (hm ▸ hn)
  | @heard msg hmsg hm hx hmaster hl =>
    have hy := hx.symm.trans hy
    refine (h y hy).linked (hknown hy) hl ?_ ?_ <;> rw [hm]
    · exact fun _ => List.mem_cons_of_mem _
    · -- the request is the message that was read
      intro hs hn hh
      obtain rfl : .sendWork = msg := (List.mem_cons.mp hs).resolve_right hn
      rw [hmaster]
      exact sendWork_cares (hknown hy) hh
  | stopped hm hx hmaster =>
    have hy := hx.symm.trans hy
    have hold := (h y hy).informed (Or.inl (hm ▸ List.mem_cons_self ..))
    refine ⟨fun _ => hold, (h y hy).begun, fun _ _ ha => ?_⟩
    rw [hold] at ha
    contradiction
  | @read x msg cfg seed hx hk hpipe ha hmaster =>
    obtain rfl := Option.some.inj (ha.worker.symm.trans hy)
    refine (h x hx).acted (reachable_status (worker_reachable hr hx)) ha (by rw [hmaster]; rfl) ?_
    intro hadd hev hc
    rcases hc with hc | ⟨msg', hmem, hw⟩
    · exact Or.inl (by rw [hmaster]; exact hc)
    · rw [hpipe] at hmem
      rcases List.mem_cons.mp hmem with rfl | hmem
      · -- what was read is neither work nor the request to leave
        cases msg' with
        | queueAdd payload => exact absurd rfl (hadd payload)
        | evaporate => exact absurd rfl hev
        | configUpdate => simp [isWork] at hw
      · exact Or.inr ⟨msg', hmem, hw⟩
  | @own x we _ hx hk _ ha hmaster =>
    obtain rfl := Option.some.inj (ha.worker.symm.trans hy)
    exact (h x hx).acted (reachable_status (worker_reachable hr hx)) ha (by rw [hmaster])
      fun _ _ hc => by rw [hmaster]; exact hc
  | @killed x code _ hx _ hx' hm hmaster =>
    obtain rfl := Option.some.inj (hx'.symm.trans hy)
    obtain ⟨h₁, h₂, h₃⟩ := h x hx
    exact ⟨by rw [hm, hmaster]; exact h₁, h₂, by rw [hm, hmaster]; exact h₃⟩
  | born _ _ _ hx hm hn =>
    obtain rfl := Option.some.inj (hx.symm.trans hy)
    exact boot_handshake hn hm
  | left _ _ hx => exact absurd (hx.symm.trans hy) (by nofun)

theorem reachable_handshake (hr : Reachable SystemModel.machine Unrestricted s) {x : Process}
    (hx : s.processes p = some x) : Handshake s p (flags x.worker) := by
  revert x
  refine reachable_invariant (I := fun s => ∀ {x}, s.processes p = some x →
    Handshake s p (flags x.worker)) ?_ ?_ hr
  · rintro s ⟨cfg, now, rfl⟩ x hx
    contradiction
  · intro s e hr ih he _ y hy
    exact step_handshake hr (fun _ hx => ih hx) he hy

theorem reachable_settled (hr : Reachable SystemModel.machine Unrestricted s) :
    Settled s.master := by
  refine reachable_invariant (I := fun s => Settled s.master) ?_ ?_ hr
  · rintro s ⟨cfg, now, rfl⟩
    exact Or.inl rfl
  · intro s e _ h he _
    cases e with
    | master me launch => exact handle_settled h
    | hear pid =>
      simp only [SystemModel.machine, SystemModel.next, System.hear]
      split
      · exact h
      · exact handle_settled (e := .message pid _) h
    | deliver pid cfg seed =>
      simp only [SystemModel.machine, SystemModel.next]
      split
      · exact h
      · rw [act_master]
        exact h
    | worker pid we =>
      simp only [SystemModel.machine, SystemModel.next]
      rw [act_master]
      exact h
    | crash pid code => exact h

/-- Queued work never waits while a worker is parked, and an idle worker that is still
available is parked, or its request or an answer to it is on its way. -/
structure NoLostWakeup (s : System) : Prop where
  settled : s.master.arrObjects = [] ∨ s.master.freeWorkers = []
  served : ∀ p x, s.processes p = some x → x.code = none → x.worker.startupTimer = false →
    x.worker.running = false → x.worker.availableForWork = true →
    p ∈ s.master.freeWorkers ∨ .sendWork ∈ s.toMaster p ∨
      ∃ msg ∈ s.master.pipe p, isWork msg = true ∨ msg = .evaporate

theorem worker_never_forgotten {s : System} (hr : Reachable SystemModel.machine Unrestricted s) :
    NoLostWakeup s := by
  constructor
  · exact reachable_settled hr
  · intro p x hx hcode hstartup hrun ha
    have hexit : x.worker.exit = none := by
      unfold Process.code at hcode
      cases hk : x.killed with
      | none => simpa [hk] using hcode
      | some c => simp [hk] at hcode
    have h := reachable_handshake hr hx
    have hst := reachable_status (worker_reachable hr hx)
    have hask : x.worker.askedForWork = true := by
      rcases h.begun hexit with hb | hb | hb
      · exact absurd (hrun.symm.trans hb) (by decide)
      · exact absurd (hstartup.symm.trans hb) (by decide)
      · exact hb
    have hs := ((hst.1 hexit).idle hrun).2.1
    rcases h.cared hexit hask ha hs with (hf | hw) | hm
    · exact Or.inl hf
    · exact Or.inr (Or.inr hw)
    · exact Or.inr (Or.inl hm)

/-- A worker asks, is parked, and is sent the first site that arrives. -/
theorem worker_never_forgotten_first_site :
    let cfg := { sampleConfig with numWorkers := 1 }
    let launch : Pid → Launch := fun _ => ⟨cfg, "jetmon", 0⟩
    NoLostWakeup (SystemModel.machine.exec (System.boot cfg 0)
      [.master (.ensureWorkerCount [7]) launch, .master (.wait 2000) launch, .worker 7 .startup,
        .hear 7,
        .master (.queryDone 0 (.rows [⟨1, "http://example.com", .running, none⟩])) launch]) :=
  worker_never_forgotten (exec_reachable (.start ⟨_, _, rfl⟩) (by decide))

end WorkHandshake
