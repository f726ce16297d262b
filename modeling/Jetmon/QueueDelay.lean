import Jetmon.SocketCheck

/-! What a check reports after it has waited in the queue of libuv. The deadline is set when the
checker is created, by http_check, and the check begins when a thread of the pool takes it. -/
namespace QueueDelay

open HostValues
open HttpVerdict
open ResponseRead
open SocketCheck

/-- The codes that http_check_async_fin hands to the callback, for a checker that was created at
`created` and has waited for `wait` milliseconds. -/
def Reports (maxRedirects : ℕ) (peers : ℕ → Peer) (url : List ℕ) (created wait : ℕ)
    (responseCode errorCode : ℤ) : Prop :=
  ∃ fuel last s,
    check .getaddrinfo maxRedirects (cutofftime created) fuel peers url (created + wait) =
        some (last, s) ∧
      s.checker.responseCode = responseCode ∧ s.checker.errorCode = errorCode

/-- When the first record that accepts the connection is tried, after the records in front of
it. -/
def acceptedAt : List Node → Option ℕ
  | [] => none
  | node :: nodes =>
    if node.internet = false ∨ node.dial.socket = false then acceptedAt nodes
    else if node.dial.accepts then some 0
    else (acceptedAt nodes).map (node.dial.took + ·)

def Tls.Ready (tls : Tls) : Prop :=
  tls.context = true ∧ tls.locations = true ∧ tls.session = true ∧ tls.bio = true ∧
    tls.handshake = true

/-- An address of the host is tried, and accepts, within `budget` milliseconds, and a TLS handshake
succeeds where the URL asks for it. -/
def Answers (peer : Peer) (url : List ℕ) (budget : ℕ) : Prop :=
  (∃ nodes ms, peer.nodes = some nodes ∧ acceptedAt nodes = some ms ∧ peer.lookup + ms < budget) ∧
    ((parseHostValuesWorker (fromUrl url)).isSsl = true → Tls.Ready peer.tls)

theorem tryNodes_made {cutoff : ℕ} {h : Target} {nodes : List Node} : ∀ {now : ℕ},
    (tryNodes cutoff h nodes now).made = true ↔
      ∃ ms, acceptedAt nodes = some ms ∧ seconds (now + ms) < cutoff := by
  induction nodes with
  | nil =>
    intro now
    exact iff_of_false nofun (by rintro ⟨ms, h, -⟩; contradiction)
  | cons node nodes ih =>
    intro now
    have hmono : ∀ ms, seconds (now + ms) < cutoff → seconds now < cutoff := fun ms h =>
      lt_of_le_of_lt (Nat.div_le_div_right (Nat.le_add_right now ms)) h
    rw [tryNodes, acceptedAt]
    by_cases hnow : seconds now < cutoff
    · rw [if_pos hnow]
      by_cases hskip : node.internet = false ∨ node.dial.socket = false
      · rw [if_pos hskip, if_pos hskip]
        exact ih
      · rw [if_neg hskip, if_neg hskip]
        by_cases haccepts : node.dial.accepts = true
        · simp only [haccepts, if_true, Option.some_inj, exists_eq_left', Nat.add_zero, hnow]
        · simp only [haccepts, if_false, Bool.false_eq_true, ih, Option.map_eq_some_iff]
          constructor
          · rintro ⟨ms, hms, hlt⟩
            exact ⟨_, ⟨ms, hms, rfl⟩, by rwa [← Nat.add_assoc]⟩
          · rintro ⟨-, ⟨ms, hms, rfl⟩, hlt⟩
            exact ⟨ms, hms, by rwa [Nat.add_assoc]⟩
    · rw [if_neg hnow]
      apply iff_of_false nofun
      rintro ⟨ms, -, hlt⟩
      exact hnow (hmono ms hlt)

theorem initSsl_ready {tls : Tls} {h : Handles} :
    ((initSsl tls h).1 && tls.bio && tls.handshake) = true ↔ Tls.Ready tls := by
  obtain ⟨context, locations, session, bio, handshake, took⟩ := tls
  cases context <;> cases locations <;> simp [initSsl, Tls.Ready, and_assoc]

theorem connect_made {cutoff : ℕ} {peer : Peer} {url : List ℕ} {start : ℕ} :
    ((started url start).connect .getaddrinfo cutoff peer).1 = true ↔
      (∃ nodes ms, peer.nodes = some nodes ∧ acceptedAt nodes = some ms ∧
        seconds (start + peer.lookup + ms) < cutoff) ∧
      ((parseHostValuesWorker (fromUrl url)).isSsl = true → Tls.Ready peer.tls) := by
  have hdial : (resolve .getaddrinfo cutoff (started url start).checker.target peer
      (started url start).now).made = true ↔ ∃ nodes ms, peer.nodes = some nodes ∧
        acceptedAt nodes = some ms ∧ seconds (start + peer.lookup + ms) < cutoff := by
    rw [resolve, connectGetaddrinfo]
    cases hnodes : peer.nodes with
    | none => exact iff_of_false nofun (by rintro ⟨nodes, ms, h, -⟩; contradiction)
    | some nodes =>
      simp only [tryNodes_made, Option.some_inj, exists_and_left, exists_eq_left']
      exact Iff.rfl
  rw [← hdial, Session.connect]
  cases hmade : (resolve .getaddrinfo cutoff (started url start).checker.target peer
      (started url start).now).made with
  | false => simp
  | true =>
    have htls : (started url start).checker.target.isSsl =
      (parseHostValuesWorker (fromUrl url)).isSsl := rfl
    simp only [htls, Bool.true_eq_false, if_false, true_and]
    cases (parseHostValuesWorker (fromUrl url)).isSsl with
    | false => simp
    | true => simpa using initSsl_ready

theorem reports_unmade {maxRedirects : ℕ} {peers : ℕ → Peer} {url : List ℕ} {created wait : ℕ}
    (h : ((started url (created + wait)).connect .getaddrinfo (cutofftime created)
      (peers 0)).1 = false) (code error : ℤ) :
    Reports maxRedirects peers url created wait code error ↔ code = 0 ∧ error = 995 := by
  obtain ⟨made, s, hc⟩ : ∃ made s, (started url (created + wait)).connect .getaddrinfo
      (cutofftime created) (peers 0) = (made, s) := ⟨_, _, rfl⟩
  rw [hc] at h
  obtain rfl : made = false := h
  have hchecker := (start_checker hc).1
  have hcheck : ∀ fuel, check .getaddrinfo maxRedirects (cutofftime created) fuel peers url
      (created + wait) =
        some (peers 0, { s with checker := { s.checker with errorCode := 995 } }) := by
    intro fuel
    rw [check, hc]
  constructor
  · rintro ⟨fuel, last, s', hs', rfl, rfl⟩
    rw [hcheck] at hs'
    obtain ⟨-, rfl⟩ := Prod.mk.inj (Option.some.inj hs')
    rw [hchecker]
    exact ⟨rfl, rfl⟩
  · rintro ⟨rfl, rfl⟩
    exact ⟨0, _, _, hcheck 0, congrArg Checker.responseCode hchecker, rfl⟩

theorem readStatus_errorCode (response : List ℕ) {w : Checker} (h : w.errorCode ≠ 995) :
    (w.readStatus response).errorCode ≠ 995 := by
  have htimeout : (998 : ℤ) ≠ 995 := by decide
  have hunknown : (999 : ℤ) ≠ 995 := by decide
  rw [Checker.readStatus]
  split
  · exact htimeout
  · split
    · exact hunknown
    · exact h

theorem served_errorCode {resolution : Resolution} {cutoff fuel left : ℕ} {peer last : Peer}
    {peers : ℕ → Peer} {s s' : Session}
    (h : Served resolution cutoff fuel left peer peers s last s') :
    s.checker.errorCode ≠ 995 → s'.checker.errorCode ≠ 995 := by
  induction h with
  | ended => exact readStatus_errorCode _
  | stuck =>
    intro _
    simp [Session.failed]
  | unreachable =>
    intro _
    simp [Session.failed]
  | redirected _ _ _ hc _ ih =>
    intro h
    apply ih
    rw [(reconnect_checker hc).1]
    exact readStatus_errorCode _ h

theorem reports_made {maxRedirects : ℕ} {peers : ℕ → Peer} {url : List ℕ} {created wait : ℕ}
    (h : ((started url (created + wait)).connect .getaddrinfo (cutofftime created)
      (peers 0)).1 = true) {code error : ℤ}
    (hr : Reports maxRedirects peers url created wait code error) : error ≠ 995 := by
  obtain ⟨fuel, last, s, hcheck, -, rfl⟩ := hr
  rcases check_cases hcheck with ⟨s₁, hc, -⟩ | ⟨s₁, hc, hserved⟩
  · rw [hc] at h
    contradiction
  · have hzero : (0 : ℤ) ≠ 995 := by decide
    apply served_errorCode hserved
    rw [(start_checker hc).1]
    exact hzero

theorem answers_of_made {peer : Peer} {url : List ℕ} {created wait : ℕ}
    (h : ((started url (created + wait)).connect .getaddrinfo (cutofftime created) peer).1 = true) :
    Answers peer url 20000 := by
  obtain ⟨⟨nodes, ms, hnodes, hms, hlt⟩, htls⟩ := connect_made.mp h
  refine ⟨⟨nodes, ms, hnodes, hms, ?_⟩, htls⟩
  unfold seconds cutofftime seconds netCommsTimeout at hlt
  omega

theorem made_at_once {peer : Peer} {url : List ℕ} (h : Answers peer url 20000) :
    ((started url (0 + 0)).connect .getaddrinfo (cutofftime 0) peer).1 = true := by
  obtain ⟨⟨nodes, ms, hnodes, hms, hlt⟩, htls⟩ := h
  refine connect_made.mpr ⟨⟨nodes, ms, hnodes, hms, ?_⟩, htls⟩
  unfold seconds cutofftime seconds netCommsTimeout
  omega

/-- After twenty seconds in the queue no connection is tried. -/
theorem unmade_late (peer : Peer) (url : List ℕ) :
    ((started url (0 + 20000)).connect .getaddrinfo (cutofftime 0) peer).1 = false := by
  rw [Bool.eq_false_iff]
  intro hmade
  obtain ⟨⟨nodes, ms, -, -, hlt⟩, -⟩ := connect_made.mp hmade
  unfold seconds cutofftime seconds netCommsTimeout at hlt
  omega

/-- For every site: the reported codes are the same whatever the time in the queue if and only if
the first connection of the check is not made even when it begins at once. -/
theorem wait_independent_iff (maxRedirects : ℕ) (peers : ℕ → Peer) (url : List ℕ) :
    (∀ (created wait created' wait' : ℕ) (code error : ℤ),
      Reports maxRedirects peers url created wait code error ↔
        Reports maxRedirects peers url created' wait' code error) ↔
      ¬Answers (peers 0) url 20000 := by
  constructor
  · intro hsame hanswers
    have hlate : Reports maxRedirects peers url 0 20000 0 995 :=
      (reports_unmade (unmade_late (peers 0) url) 0 995).mpr ⟨rfl, rfl⟩
    have hearly := (hsame 0 20000 0 0 0 995).mp hlate
    exact reports_made (made_at_once hanswers) hearly rfl
  · intro hnot created wait created' wait' code error
    have hunmade : ∀ created wait, ((started url (created + wait)).connect .getaddrinfo
        (cutofftime created) (peers 0)).1 = false := fun created wait =>
      Bool.eq_false_iff.mpr (mt answers_of_made hnot)
    rw [reports_unmade (hunmade created wait), reports_unmade (hunmade created' wait')]

def healthy (_ : ℕ) : Peer where
  nodes := some [⟨true, true, true, 0⟩]
  host := some ⟨true, true, 0⟩
  lookup := 50
  tls := ⟨true, true, true, true, true, 0⟩
  sends _ := ⟨true, 0⟩
  rounds n := .ready 100 (if n = 0 then codes "HTTP/1.1 200 OK\x0d\n\x0d\n" else []) 0
  shutdowns _ := ⟨true, 0⟩

/-- The same answers give 200, and an error after twenty seconds in the queue. -/
theorem long_wait_fails : ¬∀ (peers : ℕ → Peer) (url : List ℕ) (wait wait' : ℕ) (code error : ℤ),
    Reports 2 peers url 0 wait code error ↔ Reports 2 peers url 0 wait' code error := by
  intro h
  have hcodes : (check .getaddrinfo 2 (cutofftime 0) 3 healthy (codes "http://example.com/") 0).map
      (fun r => (r.2.checker.responseCode, r.2.checker.errorCode)) = some (200, 0) := by
    decide +kernel
  obtain ⟨⟨last, s⟩, hs, hc⟩ := Option.map_eq_some_iff.mp hcodes
  obtain ⟨hcode, herror⟩ := Prod.mk.inj hc
  have hlate := (h healthy (codes "http://example.com/") 0 20000 200 0).mp
    ⟨3, last, s, hs, hcode, herror⟩
  rw [reports_unmade (unmade_late _ _)] at hlate
  exact absurd hlate.1 (by decide)

end QueueDelay
