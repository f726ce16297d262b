import Jetmon.HttpVerdict
import Jetmon.TransitionSystem

/-! HTTP_Checker of the veriflier, source/http_checker.cpp, slot by slot. Its sockets and its
timer may call the slots in any order and any number of times, also for a socket that a redirect
has replaced and when the check has finished. -/
namespace CheckSignals

open TransitionSystem
open HostValues
open HttpVerdict

/-- What the slots do that others see. The request is the one for the members of that time. -/
inductive Effect where
  | connectToHost (target : Target)
  | sendHttpGet (target : Target)
  | finished (responseCode : ℤ)
  deriving DecidableEq, Repr

namespace Effect

def connects : Effect → Bool
  | connectToHost _ => true
  | _ => false

def finishes : Effect → Bool
  | finished _ => true
  | _ => false

end Effect

/-- The members of HTTP_Checker, and two histories: the effects in order, and the number of
calls of timed_out. No slot is connected to what closing a socket or stopping a timer emits. -/
structure Check where
  target : Target
  response : List ℕ
  responseCode : ℤ
  redirects : ℕ
  finished : Bool
  effects : List Effect
  expired : ℕ
  deriving DecidableEq, Repr

-- `maxRedirects` is what Config::get_int_value gives for max_redirects: 0 where it is missing,
-- -1 where it is null or there is no configuration
variable (qt : Qt) (maxRedirects : ℤ)

def Check.connect (c : Check) : Check :=
  { c with effects := c.effects ++ [.connectToHost c.target] }

def Check.sendHttpGet (c : Check) : Check :=
  { c with effects := c.effects ++ [.sendHttpGet c.target] }

def Check.finishRequest (c : Check) : Check :=
  if !c.finished then
    { c with finished := true, effects := c.effects ++ [.finished c.responseCode] }
  else c

def Check.parseResponseCode (data : List ℕ) (c : Check) : Check :=
  if data.length = 0 then c
  else
    { c with
      response := qt.fromBytes data
      responseCode := statusVeriflier (qt.fromBytes data) }

def Check.processResponse (c : Check) : Check :=
  if IsRedirect c.responseCode then
    let c := { c with redirects := c.redirects + 1 }
    if (c.redirects : ℤ) ≤ maxRedirects then
      match setRedirectHostValuesVeriflier qt c.response c.target with
      | some target => Check.connect { c with target := target, responseCode := 0 }
      | none => c.finishRequest
    else c.finishRequest
  else c.finishRequest

def Check.connected (isOpen : Bool) (c : Check) : Check :=
  if !isOpen then c.finishRequest else c.sendHttpGet

def Check.connectionError (c : Check) : Check := c.finishRequest

def Check.readyRead (data : List ℕ) (c : Check) : Check :=
  if data.length = 0 then c
  else if c.responseCode = 0 then
    let c := c.parseResponseCode qt data
    if c.responseCode ≠ 0 then c.processResponse qt maxRedirects else c
  else c

def Check.timedOut (c : Check) : Check :=
  Check.finishRequest { c with expired := c.expired + 1 }

inductive Event where
  | connected (isOpen : Bool)
  | connectionError
  | readyRead (data : List ℕ)
  | timedOut
  deriving DecidableEq, Repr

def next (c : Check) : Event → Check
  | .connected isOpen => c.connected isOpen
  | .connectionError => c.connectionError
  | .readyRead data => c.readyRead qt maxRedirects data
  | .timedOut => c.timedOut

def check (url : List ℕ) : Check :=
  Check.connect
    { target := parseHostValuesVeriflier (fromUrl url), response := [], responseCode := 0
      redirects := 0, finished := false, effects := [], expired := 0 }

def machine : Machine Check Event where
  start c := ∃ url, c = check url
  enabled _ _ := True
  next := next qt maxRedirects

instance (c : Check) (e : Event) : Decidable ((machine qt maxRedirects).enabled c e) :=
  isTrue trivial

structure FinishesOnce (c : Check) : Prop where
  once : c.effects.countP Effect.finishes ≤ 1
  in_time : 0 < c.expired → ∃ code, .finished code ∈ c.effects
  limited : (c.effects.countP Effect.connects : ℤ) ≤ 1 + maxRedirects
  last : c.effects.Pairwise fun x y => x.finishes = true → y.connects = false

/-- The data is the first of a connection that gives a code, and a redirect that is followed. -/
def Follows (c : Check) (data : List ℕ) : Prop :=
  c.responseCode = 0 ∧ data.length ≠ 0 ∧ IsRedirect (statusVeriflier (qt.fromBytes data)) ∧
    (c.redirects : ℤ) < maxRedirects ∧ (afterLocation qt.toLower (qt.fromBytes data)).isSome = true

instance (c : Check) (data : List ℕ) : Decidable (Follows qt maxRedirects c data) :=
  inferInstanceAs (Decidable (_ ∧ _))

/-- The run condition: a check that has finished is not redirected. -/
def Quiet (c : Check) : Event → Prop
  | .readyRead data => c.finished = true → ¬Follows qt maxRedirects c data
  | _ => True

/-- What a slot may change. -/
inductive Change (c : Check) (e : Event) : Check → Prop where
  | rests {c'} : c'.effects = c.effects → c'.finished = c.finished → c.redirects ≤ c'.redirects →
      c'.expired = c.expired ∨ c.finished = true → Change c e c'
  | sends : Change c e c.sendHttpGet
  | finishes {c' code} : c.finished = false → c'.finished = true →
      c'.effects = c.effects ++ [.finished code] → c.redirects ≤ c'.redirects → Change c e c'
  | redirects {c' data target} : e = .readyRead data → Follows qt maxRedirects c data →
      c'.effects = c.effects ++ [.connectToHost target] → c'.finished = c.finished →
      c'.redirects = c.redirects + 1 → c'.expired = c.expired → Change c e c'

variable {qt maxRedirects} {c c' : Check} {e : Event}

theorem finishRequest_change (heffects : c'.effects = c.effects)
    (hfinished : c'.finished = c.finished)
    (hredirects : c.redirects ≤ c'.redirects) : Change qt maxRedirects c e c'.finishRequest := by
  unfold Check.finishRequest
  rw [hfinished]
  cases hf : c.finished with
  | true => exact .rests heffects hfinished hredirects (Or.inr hf)
  | false => exact .finishes hf rfl (congrArg (· ++ _) heffects) hredirects

theorem readyRead_follows {data : List ℕ} (h : Follows qt maxRedirects c data) :
    ∃ target, c.readyRead qt maxRedirects data = Check.connect
      { c with
        target := target
        response := qt.fromBytes data
        responseCode := 0
        redirects := c.redirects + 1 } := by
  obtain ⟨hcode, hlen, hr, hmax, hl⟩ := h
  obtain ⟨rest, hl⟩ := Option.isSome_iff_exists.mp hl
  have hzero : statusVeriflier (qt.fromBytes data) ≠ 0 := by
    intro hz
    rw [hz] at hr
    exact absurd hr (by decide)
  have hmax : ((c.redirects + 1 : ℕ) : ℤ) ≤ maxRedirects := by
    push_cast
    omega
  unfold Check.readyRead Check.parseResponseCode
  rw [if_neg hlen, if_pos hcode, if_neg hlen]
  dsimp only
  rw [if_pos hzero, Check.processResponse]
  dsimp only
  rw [if_pos hr, if_pos hmax, setRedirectHostValuesVeriflier, hl]
  exact ⟨_, rfl⟩

theorem readyRead_change (data : List ℕ) :
    Change qt maxRedirects c (.readyRead data) (c.readyRead qt maxRedirects data) := by
  by_cases hfollows : Follows qt maxRedirects c data
  · obtain ⟨target, he⟩ := readyRead_follows hfollows
    rw [he]
    exact .redirects rfl hfollows rfl rfl rfl rfl
  unfold Check.readyRead Check.parseResponseCode
  by_cases hlen : data.length = 0
  · rw [if_pos hlen]
    exact .rests rfl rfl (Nat.le_refl _) (Or.inl rfl)
  by_cases hcode : c.responseCode = 0
  · rw [if_neg hlen, if_pos hcode, if_neg hlen]
    dsimp only
    split
    · -- process_response finds no redirect to follow
      unfold Check.processResponse
      dsimp only
      split
      · rename_i hr
        split
        · rename_i hmax
          cases hl : afterLocation qt.toLower (qt.fromBytes data) with
          | none =>
            rw [setRedirectHostValuesVeriflier, hl]
            exact finishRequest_change rfl rfl (Nat.le_succ _)
          | some rest => exact absurd ⟨hcode, hlen, hr, by omega, by rw [hl]; rfl⟩ hfollows
        · exact finishRequest_change rfl rfl (Nat.le_succ _)
      · exact finishRequest_change rfl rfl (Nat.le_refl _)
    · exact .rests rfl rfl (Nat.le_refl _) (Or.inl rfl)
  · rw [if_neg hlen, if_neg hcode]
    exact .rests rfl rfl (Nat.le_refl _) (Or.inl rfl)

theorem next_change (c : Check) (e : Event) :
    Change qt maxRedirects c e (next qt maxRedirects c e) := by
  cases e with
  | connected isOpen =>
    cases isOpen with
    | true => exact .sends
    | false => exact finishRequest_change rfl rfl (Nat.le_refl _)
  | connectionError => exact finishRequest_change rfl rfl (Nat.le_refl _)
  | readyRead data => exact readyRead_change data
  | timedOut => exact finishRequest_change rfl rfl (Nat.le_refl _)

def Check.remote (c : Check) : RemoteChecker where
  target := c.target
  response := c.response
  responseCode := c.responseCode
  redirects := c.redirects
  connecting := false
  finished := c.finished

theorem finishRequest_remote (c : Check) : c.finishRequest.remote = c.remote.finishRequest := by
  unfold Check.finishRequest RemoteChecker.finishRequest
  cases hf : c.finished with
  | true => simp [Check.remote, hf]
  | false => rfl

theorem timedOut_remote (c : Check) : c.timedOut.remote = c.remote.timedOut :=
  finishRequest_remote _

theorem connectionError_remote (c : Check) :
    c.connectionError.remote = c.remote.connectionError :=
  finishRequest_remote c

theorem processResponse_remote (n : ℕ) (c : Check) :
    c.remote.processResponse qt n =
      { (c.processResponse qt n).remote with
        connecting := decide (IsRedirect c.responseCode ∧ c.redirects < n ∧
          (afterLocation qt.toLower c.response).isSome = true) } := by
  have hends : ∀ c' : Check, c'.remote.finishRequest =
      { c'.finishRequest.remote with connecting := false } := by
    intro c'
    rw [finishRequest_remote]
    rfl
  unfold RemoteChecker.processResponse Check.processResponse
  by_cases hr : IsRedirect c.responseCode
  · have hr' : IsRedirect c.remote.responseCode := hr
    rw [if_pos hr, if_pos hr']
    dsimp only
    by_cases hmax : c.redirects < n
    · have hlimit : ((c.redirects + 1 : ℕ) : ℤ) ≤ n := by exact_mod_cast hmax
      have hlimit' : c.remote.redirects + 1 ≤ n := hmax
      rw [if_pos hlimit, if_pos hlimit', setRedirectHostValuesVeriflier,
        setRedirectHostValuesVeriflier]
      have hresponse : c.remote.response = c.response := rfl
      rw [hresponse]
      cases hl : afterLocation qt.toLower c.response with
      | none =>
        rw [decide_eq_false fun h => Bool.false_ne_true h.2.2]
        exact hends { c with redirects := c.redirects + 1 }
      | some rest => simp [hr, hmax, Check.remote, Check.connect]
    · have hlimit : ¬((c.redirects + 1 : ℕ) : ℤ) ≤ n := by exact_mod_cast hmax
      have hlimit' : ¬c.remote.redirects + 1 ≤ n := hmax
      rw [if_neg hlimit, if_neg hlimit', decide_eq_false fun h => hmax h.2.1]
      exact hends { c with redirects := c.redirects + 1 }
  · have hr' : ¬IsRedirect c.remote.responseCode := hr
    rw [if_neg hr, if_neg hr', decide_eq_false fun h => hr h.1]
    exact hends c

/-- The slot does what the script of a check takes a delivered response to do. -/
theorem readyRead_remote (n : ℕ) (c : Check) (data : List ℕ) :
    c.remote.readyRead qt n data =
      { (c.readyRead qt n data).remote with connecting := decide (Follows qt n c data) } := by
  have hstays : ∀ c' : Check, ¬Follows qt n c data →
      c'.remote = { c'.remote with connecting := decide (Follows qt n c data) } := by
    intro c' hnot
    rw [decide_eq_false hnot]
    rfl
  unfold RemoteChecker.readyRead Check.readyRead
  by_cases hlen : data.length = 0
  · rw [if_pos hlen, if_pos hlen]
    exact hstays c fun h => h.2.1 hlen
  rw [if_neg hlen, if_neg hlen]
  by_cases hcode : c.responseCode = 0
  · have hcode' : c.remote.responseCode = 0 := hcode
    have hparse : c.parseResponseCode qt data = { c with
        response := qt.fromBytes data
        responseCode := statusVeriflier (qt.fromBytes data) } := if_neg hlen
    have hparse' : c.remote.parseResponseCode qt data = (c.parseResponseCode qt data).remote := by
      rw [hparse]
      exact if_neg hlen
    rw [if_pos hcode, if_pos hcode', hparse']
    have hremote : (c.parseResponseCode qt data).remote.responseCode =
        (c.parseResponseCode qt data).responseCode := rfl
    dsimp only
    rw [hremote]
    split
    · rw [processResponse_remote, hparse]
      simp [Follows, hcode, hlen]
    · rename_i hzero
      refine hstays _ fun h => hzero ?_
      rw [hparse]
      intro hz
      have hz : statusVeriflier (qt.fromBytes data) = 0 := hz
      have hr := h.2.2.1
      rw [hz] at hr
      exact absurd hr (by decide)
  · have hcode' : c.remote.responseCode ≠ 0 := hcode
    rw [if_neg hcode, if_neg hcode']
    exact hstays c fun h => hcode h.1

structure Invariant (maxRedirects : ℤ) (c : Check) : Prop where
  emitted : c.effects.countP Effect.finishes = c.finished.toNat
  in_time : 0 < c.expired → c.finished = true
  connections : c.effects.countP Effect.connects ≤ 1 + c.redirects
  limited : (c.effects.countP Effect.connects : ℤ) ≤ 1 + maxRedirects
  last : c.effects.Pairwise fun x y => x.finishes = true → y.connects = false

theorem Invariant.finishesOnce (h : Invariant maxRedirects c) : FinishesOnce maxRedirects c := by
  refine ⟨?_, fun hx => ?_, h.limited, h.last⟩
  · rw [h.emitted]
    exact Bool.toNat_le c.finished
  · have hone := h.emitted
    rw [h.in_time hx] at hone
    obtain ⟨x, hmem, hx⟩ := List.countP_pos_iff.mp (Nat.lt_of_lt_of_eq Nat.one_pos hone.symm)
    cases x with
    | finished code => exact ⟨code, hmem⟩
    | connectToHost | sendHttpGet => contradiction

theorem check_invariant (url : List ℕ) (h : 0 ≤ maxRedirects) :
    Invariant maxRedirects (check url) := by
  refine ⟨rfl, fun hx => absurd hx (Nat.lt_irrefl 0), Nat.le_refl 1, ?_, List.pairwise_singleton ..⟩
  have hone : (check url).effects.countP Effect.connects = 1 := rfl
  rw [hone]
  omega

theorem last_append {x : Effect} {xs : List Effect} (hx : x.connects = false)
    (h : xs.Pairwise fun x y => x.finishes = true → y.connects = false) :
    (xs ++ [x]).Pairwise fun x y => x.finishes = true → y.connects = false := by
  refine List.pairwise_append.mpr ⟨h, List.pairwise_singleton .., fun y _ z hz _ => ?_⟩
  rw [List.mem_singleton.mp hz]
  exact hx

theorem change_invariant (h : Invariant maxRedirects c) (hc : Change qt maxRedirects c e c')
    (hq : Quiet qt maxRedirects c e) : Invariant maxRedirects c' := by
  cases hc with
  | rests heffects hfinished hredirects hexpired =>
    refine ⟨?_, ?_, ?_, ?_, ?_⟩
    · rw [heffects, hfinished]
      exact h.emitted
    · intro hx
      rw [hfinished]
      exact hexpired.elim (fun he => h.in_time (he ▸ hx)) id
    · rw [heffects]
      exact Nat.le_trans h.connections (Nat.add_le_add_left hredirects 1)
    · rw [heffects]
      exact h.limited
    · rw [heffects]
      exact h.last
  | sends =>
    have hcount :
        c.sendHttpGet.effects.countP Effect.connects = c.effects.countP Effect.connects := by
      simp [Check.sendHttpGet, Effect.connects]
    refine ⟨?_, h.in_time, hcount ▸ h.connections, hcount ▸ h.limited, last_append rfl h.last⟩
    rw [Check.sendHttpGet, List.countP_append, h.emitted]
    rfl
  | @finishes _ code hrunning hfinished heffects hredirects =>
    have hnone := h.emitted
    rw [hrunning] at hnone
    have hcount : c'.effects.countP Effect.connects = c.effects.countP Effect.connects := by
      rw [heffects, List.countP_append]
      rfl
    refine ⟨?_, fun _ => hfinished, ?_, hcount ▸ h.limited, ?_⟩
    · rw [heffects, List.countP_append, hnone, hfinished]
      rfl
    · rw [hcount]
      exact Nat.le_trans h.connections (Nat.add_le_add_left hredirects 1)
    · rw [heffects]
      exact last_append rfl h.last
  | @redirects _ data target he hfollows heffects hfinished hredirects hexpired =>
    subst he
    have hrunning : c.finished = false := Bool.eq_false_iff.mpr fun hf => hq hf hfollows
    have hnone := h.emitted
    rw [hrunning] at hnone
    have hcount : c'.effects.countP Effect.connects = c.effects.countP Effect.connects + 1 := by
      rw [heffects, List.countP_append]
      rfl
    have hconnections := h.connections
    have hmax := hfollows.2.2.2.1
    refine ⟨?_, ?_, by omega, by omega, ?_⟩
    · rw [heffects, List.countP_append, hnone, hfinished, hrunning]
      rfl
    · rw [hexpired, hfinished]
      exact h.in_time
    · rw [heffects]
      refine List.pairwise_append.mpr ⟨h.last, List.pairwise_singleton .., fun x hx _ _ hends => ?_⟩
      exact absurd hends (List.countP_eq_zero.mp hnone x hx)

theorem follows_late {data : List ℕ} (h : Invariant maxRedirects c) (hf : c.finished = true)
    (hfollows : Follows qt maxRedirects c data) :
    ¬FinishesOnce maxRedirects (c.readyRead qt maxRedirects data) := by
  intro hsound
  obtain ⟨target, he⟩ := readyRead_follows hfollows
  have hlast := hsound.last
  rw [he, Check.connect] at hlast
  have hone := h.emitted
  rw [hf] at hone
  obtain ⟨x, hmem, hx⟩ := List.countP_pos_iff.mp (Nat.lt_of_lt_of_eq Nat.one_pos hone.symm)
  have hnot := (List.pairwise_append.mp hlast).2.2 x hmem _ (List.mem_singleton_self _) hx
  contradiction

/-- In whatever order the slots are called, the check finishes exactly once and within its
redirects if and only if no redirect comes after it has finished. -/
theorem finishes_once_iff (qt : Qt) (maxRedirects : ℤ) (url : List ℕ) (es : List Event) :
    (machine qt maxRedirects).Always (FinishesOnce maxRedirects) (check url) es ↔
      0 ≤ maxRedirects ∧
        (machine qt maxRedirects).Valid (Quiet qt maxRedirects) (check url) es := by
  by_cases hmax : 0 ≤ maxRedirects
  · have hv : (machine qt maxRedirects).Valid Unrestricted (check url) es :=
      (valid_iff_forall (p := fun _ => True) fun _ _ => iff_of_true ⟨trivial, trivial⟩ trivial).mpr
        fun _ _ => trivial
    rw [always_iff_valid (C := Quiet qt maxRedirects) (I := Invariant maxRedirects)
      (fun _ h => h.finishesOnce)
      (fun c e h _ _ hq => change_invariant h (next_change c e) hq) ?_
      (check_invariant url hmax) hv]
    · exact (and_iff_right hmax).symm
    · intro c e h _ _ hq
      cases e with
      | readyRead data =>
        obtain ⟨hf, hfollows⟩ := Classical.not_imp.mp hq
        exact follows_late h hf (not_not.mp hfollows)
      | connected | connectionError | timedOut => exact absurd trivial hq
  · refine iff_of_false (fun ha => ?_) fun h => hmax h.1
    have hfirst : FinishesOnce maxRedirects (check url) := by
      cases es with
      | nil => exact ha
      | cons e rest => exact ha.1
    have hone : (check url).effects.countP Effect.connects = 1 := rfl
    have hlimit := hfirst.limited
    rw [hone] at hlimit
    omega

def lateRedirect : List Event :=
  [.connected true, .timedOut,
    .readyRead (codes "HTTP/1.1 301 Moved\x0d\nLocation: http://example.org/\x0d\n\x0d\n")]

theorem late_redirect_connects :
    ¬∀ (url : List ℕ) (es : List Event),
      (machine asciiQt 2).Always (FinishesOnce 2) (check url) es := by
  intro h
  have hlast := (always_last (h (codes "http://example.com/") lateRedirect)).last
  exact absurd hlast (by decide)

end CheckSignals
