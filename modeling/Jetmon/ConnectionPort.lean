import Jetmon.SocketCheck

/-! The ports that the addon connects to. connect_getaddrinfo asks for the service of the scheme,
connect_gethostbyname and the veriflier use the port that was parsed. -/
namespace ConnectionPort

open HostValues
open HttpVerdict
open ResponseRead
open SocketCheck

def dialPort : Resolution → Target → ℤ
  | .getaddrinfo, h => servicePort h.isSsl
  | .gethostbyname, h => h.port % 65536

theorem tryNodes_attempts {cutoff : ℕ} {h : Target} {nodes : List Node} :
    ∀ {now : ℕ}, ∀ a ∈ (tryNodes cutoff h nodes now).attempts, a = ⟨h, servicePort h.isSsl⟩ := by
  induction nodes with
  | nil => exact fun a ha => absurd ha List.not_mem_nil
  | cons node nodes ih =>
    intro now a ha
    rw [tryNodes] at ha
    by_cases hnow : seconds now < cutoff
    · rw [if_pos hnow] at ha
      by_cases hskip : node.internet = false ∨ node.dial.socket = false
      · rw [if_pos hskip] at ha
        exact ih a ha
      · rw [if_neg hskip] at ha
        by_cases haccepts : node.dial.accepts = true
        · simp only [haccepts, if_true, List.mem_singleton] at ha
          exact ha
        · simp only [haccepts, if_false, List.mem_cons, Bool.false_eq_true] at ha
          rcases ha with rfl | ha
          · rfl
          · exact ih a ha
    · rw [if_neg hnow] at ha
      exact absurd ha List.not_mem_nil

theorem resolve_attempts {resolution : Resolution} {cutoff : ℕ} {h : Target} {peer : Peer}
    {now : ℕ} : ∀ a ∈ (resolve resolution cutoff h peer now).attempts,
      a = ⟨h, dialPort resolution h⟩ := by
  cases resolution with
  | getaddrinfo =>
    intro a ha
    rw [resolve, connectGetaddrinfo] at ha
    cases hn : peer.nodes with
    | none =>
      rw [hn] at ha
      exact absurd ha List.not_mem_nil
    | some nodes =>
      rw [hn] at ha
      exact tryNodes_attempts a ha
  | gethostbyname =>
    intro a ha
    rw [resolve, connectGethostbyname] at ha
    cases hh : peer.host with
    | none =>
      rw [hh] at ha
      exact absurd ha List.not_mem_nil
    | some dial =>
      rw [hh] at ha
      dsimp only at ha
      split at ha
      · exact List.mem_singleton.mp ha
      · exact absurd ha List.not_mem_nil

def reachable : Peer where
  nodes := some [⟨true, true, true, 0⟩]
  host := some ⟨true, true, 0⟩
  lookup := 0
  tls := ⟨true, true, true, true, true, 0⟩
  sends := fun _ => ⟨true, 0⟩
  rounds := fun _ => .ready 0 [] 0
  shutdowns := fun _ => ⟨true, 0⟩

theorem reachable_attempts (resolution : Resolution) (h : Target) :
    ⟨h, dialPort resolution h⟩ ∈ (resolve resolution 1 h reachable 0).attempts := by
  cases resolution with
  | getaddrinfo => exact List.mem_cons_self ..
  | gethostbyname => exact List.mem_cons_self ..

/-- Whatever the calls give, the attempts go to the port that was parsed. -/
def OnPort (h : Target) : Prop :=
  ∀ (resolution : Resolution) (cutoff : ℕ) (peer : Peer) (now : ℕ),
    ∀ a ∈ (resolve resolution cutoff h peer now).attempts, a.port = h.port

/-- Attempts on the one path go where those on the other go. -/
def SameEndpoint (h : Target) : Prop :=
  ∀ (cutoff : ℕ) (peer peer' : Peer) (now now' : ℕ),
    ∀ a ∈ (resolve .getaddrinfo cutoff h peer now).attempts,
      ∀ b ∈ (resolve .gethostbyname cutoff h peer' now').attempts, a.port = b.port

theorem onPort_iff (h : Target) : OnPort h ↔ h.port = servicePort h.isSsl := by
  constructor
  · intro hport
    exact (hport .getaddrinfo 1 reachable 0 _ (reachable_attempts .getaddrinfo h)).symm
  · intro hport resolution cutoff peer now a ha
    rw [resolve_attempts a ha]
    cases resolution with
    | getaddrinfo => exact hport.symm
    | gethostbyname =>
      dsimp only [dialPort]
      rw [hport, servicePort]
      split <;> rfl

theorem sameEndpoint_iff (h : Target) :
    SameEndpoint h ↔ h.port % 65536 = servicePort h.isSsl := by
  constructor
  · intro hsame
    exact (hsame 1 reachable reachable 0 0 _ (reachable_attempts .getaddrinfo h) _
      (reachable_attempts .gethostbyname h)).symm
  · intro hport cutoff peer peer' now now' a ha b hb
    rw [resolve_attempts a ha, resolve_attempts b hb]
    exact hport.symm

variable {resolution : Resolution} {cutoff fuel : ℕ}

def MadeFor (resolution : Resolution) (chain : List Target) (a : Attempt) : Prop :=
  a.target ∈ chain ∧ a.port = dialPort resolution a.target

theorem reconnect_attempts {peer peer' : Peer} {s s' : Session} {response : List ℕ} {now : ℕ}
    {target : Target} {made : Bool}
    (h : (((s.heard response now).turned response target).disconnect cutoff peer).connect resolution
      cutoff peer' = (made, s')) :
    ∀ a ∈ s'.attempts, a ∈ s.attempts ∨ a = ⟨target, dialPort resolution target⟩ := by
  obtain ⟨hchecker, -, hattempts⟩ := disconnect_frame cutoff peer
    ((s.heard response now).turned response target)
  have hconnect := connect_attempts resolution cutoff peer'
    (((s.heard response now).turned response target).disconnect cutoff peer)
  rw [h, hattempts, hchecker] at hconnect
  intro a ha
  have ha : a ∈ s'.attempts := ha
  rw [hconnect, List.mem_append] at ha
  exact ha.imp id (resolve_attempts a)

theorem served_attempts {left : ℕ} {peer last : Peer} {peers : ℕ → Peer} {s s' : Session}
    (h : Served resolution cutoff fuel left peer peers s last s') :
    ∃ responses, s'.followed = s.followed ++ responses ∧
      ∀ a ∈ s'.attempts, a ∈ s.attempts ∨
        MadeFor resolution (chain s.checker.target responses) a := by
  induction h with
  | ended => exact ⟨[], (List.append_nil _).symm, fun a ha => Or.inl ha⟩
  | stuck => exact ⟨[], (List.append_nil _).symm, fun a ha => Or.inl ha⟩
  | @unreachable left peer peers s response now target s' _ _ hl hc =>
    refine ⟨[response], (reconnect_checker hc).2, fun a ha => ?_⟩
    refine (reconnect_attempts hc a ha).imp id ?_
    rintro rfl
    rw [chain_cons hl]
    exact ⟨List.mem_cons_of_mem _ (chain_head target []), rfl⟩
  | @redirected left peer peers s response now target s' last s'' _ _ hl hc _ ih =>
    obtain ⟨hchecker, hfollowed⟩ := reconnect_checker hc
    obtain ⟨responses, hrest, hmade⟩ := ih
    have htarget : s'.checker.target = target := congrArg Checker.target hchecker
    rw [htarget] at hmade
    refine ⟨response :: responses, by rw [hrest, hfollowed, List.append_assoc]; rfl, fun a ha => ?_⟩
    rw [chain_cons hl]
    rcases hmade a ha with ha | ⟨hmem, hport⟩
    · refine (reconnect_attempts hc a ha).imp id ?_
      rintro rfl
      exact ⟨List.mem_cons_of_mem _ (chain_head target responses), rfl⟩
    · exact Or.inr ⟨List.mem_cons_of_mem _ hmem, hport⟩

theorem check_attempts {maxRedirects start : ℕ} {peers : ℕ → Peer} {url : List ℕ} {last : Peer}
    {s : Session} (h : check resolution maxRedirects cutoff fuel peers url start = some (last, s)) :
    ∀ a ∈ s.attempts, MadeFor resolution (targets url s.followed) a := by
  have hfirst : ∀ {made s₁}, (started url start).connect resolution cutoff (peers 0) = (made, s₁) →
      ∀ a ∈ s₁.attempts, a = ⟨parseHostValuesWorker (fromUrl url),
        dialPort resolution (parseHostValuesWorker (fromUrl url))⟩ := by
    intro made s₁ hc a ha
    have hconnect := connect_attempts resolution cutoff (peers 0)
      (started url start)
    rw [hc] at hconnect
    have ha : a ∈ ([] : List Attempt) ++ _ := hconnect ▸ ha
    exact resolve_attempts a ha
  rcases check_cases h with ⟨s₁, hc, -, rfl⟩ | ⟨s₁, hc, hserved⟩
  · intro a ha
    rw [hfirst hc a ha]
    exact ⟨chain_head _ _, rfl⟩
  · obtain ⟨hchecker, hfollowed⟩ := start_checker hc
    obtain ⟨responses, hrest, hmade⟩ := served_attempts hserved
    rw [hfollowed, List.nil_append] at hrest
    rw [hchecker] at hmade
    intro a ha
    rw [hrest]
    rcases hmade a ha with ha | ha
    · rw [hfirst hc a ha]
      exact ⟨chain_head _ _, rfl⟩
    · exact ha

/-- For every URL and every chain of redirects: the attempts of both paths go to the parsed port,
and to the same endpoint, if and only if each port of the chain is the one of its scheme. -/
theorem attempts_on_port_iff (url : List ℕ) (responses : List (List ℕ)) :
    (∀ h ∈ targets url responses, OnPort h ∧ SameEndpoint h) ↔
      ∀ h ∈ targets url responses, h.port = servicePort h.isSsl := by
  refine forall₂_congr fun h _ => ?_
  constructor
  · exact fun ⟨hport, _⟩ => (onPort_iff h).mp hport
  · intro hport
    refine ⟨(onPort_iff h).mpr hport, (sameEndpoint_iff h).mpr ?_⟩
    rw [hport, servicePort]
    split <;> rfl

/-- `http://example.com:8080/`. -/
theorem custom_port_lost :
    ¬∀ (url : List ℕ) (responses : List (List ℕ)),
      ∀ h ∈ targets url responses, OnPort h ∧ SameEndpoint h := by
  intro h
  have hport := (h (codes "http://example.com:8080/") [] _ (chain_head _ [])).1
  exact absurd ((onPort_iff _).mp hport) (by decide)

end ConnectionPort
