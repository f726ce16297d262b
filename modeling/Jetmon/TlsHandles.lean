import Jetmon.SocketCheck

/-! The SSL_CTX and SSL handles of one check. disconnect frees them where the TLS flag is set, and
at a redirect the flag is already that of the next target. -/
namespace TlsHandles

open HostValues
open HttpVerdict
open SocketCheck

def Idle (h : Handles) : Prop := h.ctx = none ∧ h.ssl = none

instance (h : Handles) : Decidable (Idle h) := inferInstanceAs (Decidable (_ ∧ _))

def owned (h : Handles) : List ℕ := h.ctx.toList ++ h.ssl.toList

/-- Each handle that was created is either freed or owned, and was never overwritten. -/
structure Kept (h : Handles) : Prop where
  each : (h.freed ++ owned h).Perm (List.range h.created)
  overwritten : h.overwritten = []

/-- Every handle has been freed exactly once, and none was overwritten. -/
def Released (h : Handles) : Prop :=
  (∀ i < h.created, h.freed.count i = 1) ∧ h.overwritten = []

instance (h : Handles) : Decidable (Released h) := inferInstanceAs (Decidable (_ ∧ _))

theorem owned_eq_nil {h : Handles} : owned h = [] ↔ Idle h := by
  rw [owned, List.append_eq_nil_iff, Option.toList_eq_nil_iff, Option.toList_eq_nil_iff, Idle]

theorem Kept.count {h : Handles} (hk : Kept h) {i : ℕ} (hi : i < h.created) :
    h.freed.count i + (owned h).count i = 1 := by
  rw [← List.count_append, hk.each.count_eq]
  exact List.count_eq_one_of_mem List.nodup_range (List.mem_range.mpr hi)

theorem released_iff {h : Handles} (hk : Kept h) : Released h ↔ Idle h := by
  constructor
  · rintro ⟨hfreed, -⟩
    rw [← owned_eq_nil, List.eq_nil_iff_forall_not_mem]
    intro i hi
    have hlt : i < h.created :=
      List.mem_range.mp (hk.each.mem_iff.mp (List.mem_append_right _ hi))
    have hone := hk.count hlt
    have hpos := List.count_pos_iff.mpr hi
    rw [hfreed i hlt] at hone
    omega
  · intro hidle
    refine ⟨fun i hi => ?_, hk.overwritten⟩
    have hone := hk.count hi
    rw [owned_eq_nil.mpr hidle, List.count_nil] at hone
    exact hone

theorem perm_create {freed owned : List ℕ} {n : ℕ} (h : (freed ++ owned).Perm (List.range n)) :
    (freed ++ (owned ++ [n])).Perm (List.range (n + 1)) := by
  rw [List.range_succ, ← List.append_assoc]
  exact h.append_right [n]

theorem Kept.newCtx {h : Handles} (hk : Kept h) (hidle : Idle h) (given : Bool) :
    Kept (h.newCtx given) ∧ (h.newCtx given).ssl = none := by
  obtain ⟨hctx, hssl⟩ := hidle
  refine ⟨⟨?_, ?_⟩, hssl⟩
  · have heach := hk.each
    rw [owned, hctx, hssl] at heach
    cases given with
    | false => simpa [Handles.newCtx, owned, hssl] using heach
    | true => simpa [Handles.newCtx, owned, hssl] using perm_create heach
  · simp [Handles.newCtx, hctx, hk.overwritten]

theorem Kept.newSsl {h : Handles} (hk : Kept h) (hssl : h.ssl = none) (given : Bool) :
    Kept (h.newSsl given) := by
  have heach := hk.each
  rw [owned, hssl] at heach
  constructor
  · cases given with
    | false => simpa [Handles.newSsl, owned] using heach
    | true => simpa [Handles.newSsl, owned] using perm_create heach
  · simp [Handles.newSsl, hssl, hk.overwritten]

theorem Kept.freeSsl {h : Handles} (hk : Kept h) : Kept h.freeSsl := by
  refine ⟨?_, hk.overwritten⟩
  have heach := hk.each
  simp only [owned, Handles.freeSsl, Option.toList_none, List.append_nil,
    List.append_assoc] at heach ⊢
  exact ((List.perm_append_comm).append_left h.freed).trans heach

theorem Kept.freeCtx {h : Handles} (hk : Kept h) : Kept h.freeCtx := by
  refine ⟨?_, hk.overwritten⟩
  have heach := hk.each
  simp only [owned, Handles.freeCtx, Option.toList_none, List.nil_append,
    List.append_assoc] at heach ⊢
  exact heach

theorem Kept.initSsl {h : Handles} (hk : Kept h) (hidle : Idle h) (tls : Tls) :
    Kept (initSsl tls h).2 ∧ ((initSsl tls h).1 = true → ¬Idle (initSsl tls h).2) := by
  obtain ⟨hctx, hssl⟩ := hk.newCtx hidle tls.context
  rw [SocketCheck.initSsl]
  by_cases hfail : tls.context = false ∨ tls.locations = false
  · rw [if_pos hfail]
    exact ⟨hctx, nofun⟩
  · rw [if_neg hfail]
    refine ⟨hctx.newSsl hssl tls.session, fun hsession hidle => ?_⟩
    have hsession : tls.session = true := hsession
    have hnone := hidle.2
    simp [Handles.newSsl, hsession] at hnone

variable {resolution : Resolution} {cutoff fuel : ℕ}

theorem connect_handles (resolution : Resolution) (cutoff : ℕ) (peer : Peer) {s : Session}
    (hk : Kept s.handles)
    (hidle : s.checker.target.isSsl = true → Idle s.handles) :
    Kept (s.connect resolution cutoff peer).2.handles ∧
      (s.checker.target.isSsl = false →
        (s.connect resolution cutoff peer).2.handles = s.handles) ∧
      (s.checker.target.isSsl = true → (s.connect resolution cutoff peer).1 = true →
        ¬Idle (s.connect resolution cutoff peer).2.handles) := by
  rw [Session.connect]
  dsimp only
  by_cases hmade : (resolve resolution cutoff s.checker.target peer s.now).made = false
  · rw [if_pos hmade]
    exact ⟨hk, fun _ => rfl, fun _ hready => by contradiction⟩
  · rw [if_neg hmade]
    by_cases htls : s.checker.target.isSsl = true
    · obtain ⟨hkept, hopen⟩ := hk.initSsl (hidle htls) peer.tls
      rw [if_pos htls]
      refine ⟨hkept, fun h => absurd htls (by simp [h]), fun _ hready => hopen ?_⟩
      rw [Bool.and_eq_true, Bool.and_eq_true] at hready
      exact hready.1.1
    · rw [if_neg htls]
      exact ⟨hk, fun _ => rfl, fun h => absurd h htls⟩

theorem disconnect_handles (cutoff : ℕ) (peer : Peer) {s : Session} (hk : Kept s.handles) :
    Kept (s.disconnect cutoff peer).handles ∧
      (s.checker.target.isSsl = true → Idle (s.disconnect cutoff peer).handles) ∧
      (s.checker.target.isSsl = false → (s.disconnect cutoff peer).handles = s.handles) := by
  rw [Session.disconnect]
  by_cases htls : s.checker.target.isSsl = true
  · rw [if_pos htls, Session.disconnectTls]
    split
    · exact ⟨hk.freeCtx, fun _ => ⟨rfl, ‹_›⟩, fun h => absurd htls (by simp [h])⟩
    · exact ⟨hk.freeSsl.freeCtx, fun _ => ⟨rfl, rfl⟩, fun h => absurd htls (by simp [h])⟩
  · rw [if_neg htls]
    exact ⟨hk, fun h => absurd h htls, fun _ => rfl⟩

/-- The handles at the connect after a redirect: those of the connection before stay where the
next target is without TLS. -/
theorem reconnect_handles {peer peer' : Peer} {s s' : Session} {response : List ℕ} {now : ℕ}
    {target : Target} {made : Bool} (hk : Kept s.handles)
    (h : (((s.heard response now).turned response target).disconnect cutoff peer).connect resolution
      cutoff peer' = (made, s')) :
    Kept s'.handles ∧ (target.isSsl = false → s'.handles = s.handles) ∧
      (target.isSsl = true → made = true → ¬Idle s'.handles) := by
  have hturned : Kept ((s.heard response now).turned response target).handles := hk
  obtain ⟨hkept, hidle, hsame⟩ := disconnect_handles cutoff peer hturned
  have hchecker := (disconnect_frame cutoff peer ((s.heard response now).turned response target)).1
  have htarget : (((s.heard response now).turned response target).disconnect cutoff
      peer).checker.target = target := congrArg Checker.target hchecker
  have hconnect := connect_handles resolution cutoff peer' hkept
    (htarget.symm ▸ hidle)
  rw [h, htarget] at hconnect
  exact ⟨hconnect.1, fun hplain => (hconnect.2.1 hplain).trans (hsame hplain), hconnect.2.2⟩

/-- Before the destructor: nothing is owned at a target without TLS if and only if no target had
TLS. -/
theorem served_handles {left : ℕ} {peer last : Peer} {peers : ℕ → Peer} {s s' : Session}
    (h : Served resolution cutoff fuel left peer peers s last s') :
    Kept s.handles → (s.checker.target.isSsl = true → ¬Idle s.handles) →
    ∃ responses, s'.followed = s.followed ++ responses ∧ Kept s'.handles ∧
      (s'.checker.target.isSsl = false → (Idle s'.handles ↔ Idle s.handles ∧
        ∀ target ∈ chain s.checker.target responses, target.isSsl = false)) := by
  induction h with
  | @ended left peer peers s response now _ _ =>
    intro hk _
    refine ⟨[], (List.append_nil _).symm, hk, fun hplain => ?_⟩
    have htarget : (s.heard response now).checker.target = s.checker.target :=
      readStatus_target response s.checker
    rw [htarget] at hplain
    simp [chain, hplain, Session.heard]
  | @stuck left peer peers s response now _ _ _ =>
    intro hk _
    refine ⟨[], (List.append_nil _).symm, hk, fun hplain => ?_⟩
    have htarget : ((s.heard response now).failed 997).checker.target = s.checker.target :=
      readStatus_target response s.checker
    rw [htarget] at hplain
    simp [chain, hplain, Session.heard, Session.failed]
  | @unreachable left peer peers s response now target s' _ _ hl hc =>
    intro hk hopen
    obtain ⟨hkept, hsame, -⟩ := reconnect_handles hk hc
    obtain ⟨hchecker, hfollowed⟩ := reconnect_checker hc
    refine ⟨[response], hfollowed, hkept, fun hplain => ?_⟩
    have htarget : (s'.failed 996).checker.target = target := congrArg Checker.target hchecker
    rw [htarget] at hplain
    have hhandles : (s'.failed 996).handles = s.handles := hsame hplain
    rw [hhandles, chain_cons hl, List.forall_mem_cons, chain, List.forall_mem_singleton]
    refine ⟨fun hidle => ⟨hidle, ?_, hplain⟩, fun hidle => hidle.1⟩
    exact Bool.eq_false_iff.mpr fun htls => hopen htls hidle
  | @redirected left peer peers s response now target s' last s'' _ _ hl hc _ ih =>
    intro hk hopen
    obtain ⟨hkept, hsame, hnext⟩ := reconnect_handles hk hc
    obtain ⟨hchecker, hfollowed⟩ := reconnect_checker hc
    have htarget : s'.checker.target = target := congrArg Checker.target hchecker
    rw [htarget] at ih
    obtain ⟨responses, hrest, hkept', hiff⟩ := ih hkept fun htls => hnext htls rfl
    refine ⟨response :: responses, by rw [hrest, hfollowed, List.append_assoc]; rfl, hkept', ?_⟩
    intro hplain
    rw [hiff hplain, chain_cons hl, List.forall_mem_cons]
    by_cases htls : target.isSsl = true
    · -- the chain has a target with TLS
      have hnot : ¬∀ t ∈ chain target responses, t.isSsl = false := fun hall => by
        rw [hall target (chain_head target responses)] at htls
        contradiction
      exact iff_of_false (fun h => hnot h.2) fun h => hnot h.2.2
    · rw [hsame (Bool.eq_false_iff.mpr htls)]
      constructor
      · intro h
        exact ⟨h.1, Bool.eq_false_iff.mpr fun htls' => hopen htls' h.1, h.2⟩
      · intro h
        exact ⟨h.1, h.2.2⟩

theorem started_kept (url : List ℕ) (start : ℕ) :
    Kept (started url start).handles ∧ Idle (started url start).handles :=
  ⟨⟨List.Perm.nil, rfl⟩, rfl, rfl⟩

theorem check_handles {maxRedirects start : ℕ} {peers : ℕ → Peer} {url : List ℕ} {last : Peer}
    {s : Session} (h : check resolution maxRedirects cutoff fuel peers url start = some (last, s)) :
    Kept s.handles ∧ (s.checker.target.isSsl = false →
      (Idle s.handles ↔ ∀ target ∈ targets url s.followed, target.isSsl = false)) := by
  obtain ⟨hk, hidle⟩ := started_kept url start
  have hconnect := connect_handles resolution cutoff (peers 0) hk fun _ => hidle
  rcases check_cases h with ⟨s₁, hc, -, rfl⟩ | ⟨s₁, hc, hserved⟩
  · rw [hc] at hconnect
    obtain ⟨hchecker, hfollowed⟩ := start_checker hc
    refine ⟨hconnect.1, fun hplain => ?_⟩
    dsimp only at hplain ⊢
    rw [hchecker] at hplain
    have hsame : s₁.handles = (started url start).handles := hconnect.2.1 hplain
    rw [hsame, hfollowed, targets, chain, List.forall_mem_singleton]
    exact iff_of_true hidle hplain
  · rw [hc] at hconnect
    obtain ⟨hchecker, hfollowed⟩ := start_checker hc
    have htarget : s₁.checker.target = (started url start).checker.target :=
      congrArg Checker.target hchecker
    obtain ⟨responses, hrest, hkept, hiff⟩ := served_handles hserved hconnect.1 fun htls =>
      hconnect.2.2 (htarget ▸ htls) rfl
    rw [hfollowed, List.nil_append] at hrest
    refine ⟨hkept, fun hplain => ?_⟩
    rw [hiff hplain, hrest, hchecker]
    refine ⟨fun h => h.2, fun hall => ⟨?_, hall⟩⟩
    rw [hconnect.2.1 (hall _ (chain_head _ _))]
    exact hidle

/-- When the destructor has run every handle has been freed exactly once, and none was ever
overwritten, if and only if the last target of the check has TLS or none had. -/
theorem handles_released_iff {maxRedirects start : ℕ} {peers : ℕ → Peer} {url : List ℕ}
    {last : Peer} {s : Session}
    (h : check resolution maxRedirects cutoff fuel peers url start = some (last, s)) :
    Released (s.disconnect cutoff last).handles ↔
      (∃ target, (targets url s.followed).getLast? = some target ∧ target.isSsl = true) ∨
        ∀ target ∈ targets url s.followed, target.isSsl = false := by
  obtain ⟨hk, hiff⟩ := check_handles h
  obtain ⟨hkept, hidle, hsame⟩ := disconnect_handles cutoff last hk
  rw [released_iff hkept]
  by_cases htls : s.checker.target.isSsl = true
  · exact iff_of_true (hidle htls) (Or.inl ⟨_, check_targets h, htls⟩)
  · rw [hsame (Bool.eq_false_iff.mpr htls), hiff (Bool.eq_false_iff.mpr htls)]
    refine ⟨Or.inr, fun h' => ?_⟩
    rcases h' with ⟨target, hlast, htls'⟩ | hall
    · rw [check_targets h] at hlast
      exact absurd (Option.some.inj hlast ▸ htls') htls
    · exact hall

def site (response : List ℕ) : Peer where
  nodes := some [⟨true, true, true, 0⟩]
  host := some ⟨true, true, 0⟩
  lookup := 0
  tls := ⟨true, true, true, true, true, 0⟩
  sends _ := ⟨true, 0⟩
  rounds n := .ready 0 (if n = 0 then response else []) 0
  shutdowns _ := ⟨true, 0⟩

def okResponse : List ℕ := codes "HTTP/1.1 200 OK\x0d\n\x0d\n"

def movedToPlain (n : ℕ) : Peer :=
  if n = 0 then site (codes "HTTP/1.1 301 Moved\x0d\nLocation: http://example.org/\x0d\n\x0d\n")
  else site okResponse

def secureUrl : List ℕ := codes "https://example.com/"

theorem handles_released_secure : ∃ last s,
    check .getaddrinfo 2 20 3 (fun _ => site okResponse) secureUrl 0 = some (last, s) ∧
      Released (s.disconnect 20 last).handles := by
  have hends : (check .getaddrinfo 2 20 3 (fun _ => site okResponse) secureUrl 0).isSome =
      true := by
    decide +kernel
  have htls : (check .getaddrinfo 2 20 3 (fun _ => site okResponse) secureUrl 0).map
      (·.2.checker.target.isSsl) = some true := by decide +kernel
  obtain ⟨⟨last, s⟩, h⟩ := Option.isSome_iff_exists.mp hends
  rw [h] at htls
  have hlast := check_targets h
  exact ⟨last, s, h, (handles_released_iff h).mpr (Or.inl ⟨_, hlast, Option.some.inj htls⟩)⟩

/-- The context and the connection of the first site are never freed. -/
theorem downgrade_leaks : ¬∀ (peers : ℕ → Peer) (url : List ℕ) (start fuel : ℕ) (last : Peer)
    (s : Session), check .getaddrinfo 2 20 fuel peers url start = some (last, s) →
      Released (s.disconnect 20 last).handles := by
  intro h
  have hends : (check .getaddrinfo 2 20 3 movedToPlain secureUrl 0).map
      (fun r => decide (Released (r.2.disconnect 20 r.1).handles)) = some false := by decide +kernel
  cases hc : check .getaddrinfo 2 20 3 movedToPlain secureUrl 0 with
  | none =>
    rw [hc] at hends
    contradiction
  | some r =>
    rw [hc] at hends
    exact of_decide_eq_false (Option.some.inj hends) (h _ _ _ _ r.1 r.2 hc)

end TlsHandles
