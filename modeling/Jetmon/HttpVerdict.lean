import Jetmon.HostValues
import Jetmon.WorkerState

/-! What one HTTP check finds, in the worker and in the veriflier. The addon reads the
responses along a chain of redirects in a recursion; the veriflier is driven by the events
of its socket and of its timer. A script says what each connection does: it fails, or it
delivers the whole response and nothing else. -/
namespace HttpVerdict

open TextSearch
open NumberText
open HostValues

inductive Connection where
  | fails
  | delivers (response : List ℕ)
  deriving DecidableEq, Repr

def later (script : ℕ → Connection) : ℕ → Connection := fun n => script (n + 1)

def space : ℕ := 32

def crlf : List ℕ := [13, 10]

def locationHeader : List ℕ := codes "location: "

/-- What follows the first "location: ", if a CRLF comes after it. The header is looked for
in the lower case text, and its position is used in the text itself. -/
def afterLocation (lower : List ℕ → List ℕ) (content : List ℕ) : Option (List ℕ) :=
  match find locationHeader (lower content) with
  | none => none
  | some i =>
    let rest := substr (i + 10) (content.length - (i + 10)) content
    if find crlf rest = ⊤ then none else some rest

/-- The members for a redirect to `location`; an empty host name is the old one. -/
def redirected (parse : Target → Target) (location : List ℕ) (h : Target) : Target :=
  let h' := parse (fromUrl location)
  if h'.hostName.length = 0 then { h' with hostName := h.hostName } else h'

/-- The members of the addon's HTTP_Checker that a check writes. -/
structure Checker where
  target : Target
  responseCode : ℤ
  errorCode : ℤ
  deriving DecidableEq, Repr

def tolower (u : ℕ) : ℕ := if 65 ≤ u ∧ u ≤ 90 then u + 32 else u

/-- HTTP_Checker::set_redirect_host_values of the addon; `none` is false. The value ends at
the first CR or LF. -/
def setRedirectHostValuesWorker (content : List ℕ) (h : Target) : Option Target :=
  (afterLocation (List.map tolower) content).map fun rest =>
    let location := erase (clip (findAny crlf rest) rest.length)
      (rest.length - clip (findAny crlf rest) rest.length) rest
    redirected parseHostValuesWorker location h

def statusWorker (response : List ℕ) : ℤ := atoi (substr 9 3 response)

def IsRedirect (code : ℤ) : Prop := 300 < code ∧ code < 400

instance (code : ℤ) : Decidable (IsRedirect code) := by
  unfold IsRedirect
  infer_instance

def Checker.readStatus (response : List ℕ) (w : Checker) : Checker :=
  if response.length = 0 then { w with responseCode := 0, errorCode := 998 }
  else if find [space] response ≠ 8 then { w with responseCode := 999, errorCode := 999 }
  else { w with responseCode := statusWorker response }

/-- HTTP_Checker::set_host_response, where `left` more redirects may be followed. `response`
is what this connection delivers, and `script` is about the connections after it. -/
def Checker.setHostResponse : ℕ → List ℕ → (ℕ → Connection) → Checker → Checker
  -- at the limit the 3xx code is left, so that the site counts as up
  | 0, response, _, w => w.readStatus response
  | left + 1, response, script, w =>
    if IsRedirect (w.readStatus response).responseCode then
      match setRedirectHostValuesWorker response w.target with
      | none => { w with responseCode := 0, errorCode := 997 }
      | some target =>
        match script 0 with
        | .fails => { w with target := target, responseCode := 0, errorCode := 996 }
        | .delivers next =>
          setHostResponse left next (later script)
            { w.readStatus response with target := target }
    else w.readStatus response

def checkHost (maxRedirects : ℕ) (script : ℕ → Connection) (url : List ℕ) : Checker :=
  let w : Checker := ⟨parseHostValuesWorker (fromUrl url), 0, 0⟩
  match script 0 with
  | .fails => { w with errorCode := 995 }
  | .delivers response => w.setHostResponse maxRedirects response (later script)

/-- The parts of Qt's strings that are not looked into: reading a string from bytes, up to a
NUL, and its lower case. -/
structure Qt where
  fromBytes : List ℕ → List ℕ
  toLower : List ℕ → List ℕ

/-- The members of the veriflier's HTTP_Checker. `connecting` is set by connect() and cleared
when the socket delivers, `finished` records the emitted signal. -/
structure RemoteChecker where
  target : Target
  response : List ℕ
  responseCode : ℤ
  redirects : ℕ
  connecting : Bool
  finished : Bool
  deriving DecidableEq, Repr

variable (qt : Qt) (maxRedirects : ℕ)

/-- HTTP_Checker::set_redirect_host_values of the veriflier. The value ends at the first
CRLF. -/
def setRedirectHostValuesVeriflier (content : List ℕ) (h : Target) : Option Target :=
  (afterLocation qt.toLower content).map fun rest =>
    let location := erase (clip (find crlf rest) rest.length)
      (rest.length - clip (find crlf rest) rest.length) rest
    redirected parseHostValuesVeriflier location h

def statusVeriflier (response : List ℕ) : ℤ :=
  if find [space] response = 8 then toInt (substr 9 3 response) else -1

def RemoteChecker.finishRequest (c : RemoteChecker) : RemoteChecker := { c with finished := true }

def RemoteChecker.parseResponseCode (data : List ℕ) (c : RemoteChecker) : RemoteChecker :=
  if data.length = 0 then c
  else
    { c with
      response := qt.fromBytes data
      responseCode := statusVeriflier (qt.fromBytes data) }

/-- HTTP_Checker::process_response. A redirect that is not followed keeps its 3xx code. -/
def RemoteChecker.processResponse (c : RemoteChecker) : RemoteChecker :=
  if IsRedirect c.responseCode then
    let c := { c with redirects := c.redirects + 1 }
    if c.redirects ≤ maxRedirects then
      match setRedirectHostValuesVeriflier qt c.response c.target with
      | some target => { c with target := target, responseCode := 0, connecting := true }
      | none => c.finishRequest
    else c.finishRequest
  else c.finishRequest

def RemoteChecker.readyRead (data : List ℕ) (c : RemoteChecker) : RemoteChecker :=
  if data.length = 0 then c
  else if c.responseCode = 0 then
    let c := c.parseResponseCode qt data
    if c.responseCode ≠ 0 then c.processResponse qt maxRedirects else c
  else c

def RemoteChecker.connectionError (c : RemoteChecker) : RemoteChecker := c.finishRequest

def RemoteChecker.timedOut (c : RemoteChecker) : RemoteChecker := c.finishRequest

/-- The events of the connections of a script, at most `n` of them. A connection that leads
neither to a next one nor to the end of the check is ended by the timer. -/
def RemoteChecker.serve : ℕ → (ℕ → Connection) → RemoteChecker → RemoteChecker
  | 0, _, c => c
  | n + 1, script, c =>
    match script 0 with
    | .fails => RemoteChecker.connectionError { c with connecting := false }
    | .delivers response =>
      let c := RemoteChecker.readyRead qt maxRedirects response { c with connecting := false }
      if c.connecting then serve n (later script) c else c.timedOut

def checkRemote (script : ℕ → Connection) (url : List ℕ) : RemoteChecker :=
  let c : RemoteChecker :=
    { target := parseHostValuesVeriflier (fromUrl url), response := [], responseCode := 0
      redirects := 0, connecting := true, finished := false }
  c.serve qt maxRedirects (maxRedirects + 1) script

/-- The test in processResultsCallback. -/
def UpInWorker (rtt code : ℤ) : Prop := 0 < rtt ∧ code < 400 ∧ code ≠ 0

/-- The test in CheckThread::finishedCheck. -/
def UpInVeriflier (rtt code : ℤ) : Prop := 0 < rtt ∧ 0 < code ∧ code < 400

instance (rtt code : ℤ) : Decidable (UpInWorker rtt code) := by
  unfold UpInWorker
  infer_instance

instance (rtt code : ℤ) : Decidable (UpInVeriflier rtt code) := by
  unfold UpInVeriflier
  infer_instance

/-- What matters for the code at the end of a chain: the code read off a response, whether
its redirect can be followed, and the code when it should be followed and cannot. -/
structure Reader where
  status : List ℕ → ℤ
  located : List ℕ → Bool
  stuck : ℤ → ℤ

def Reader.code (R : Reader) : Connection → ℤ
  | .fails => 0
  | .delivers response => if response.length = 0 then 0 else R.status response

def Reader.follow (R : Reader) : ℕ → (ℕ → Connection) → ℤ
  | 0, script => R.code (script 0)
  | left + 1, script =>
    match script 0 with
    | .fails => 0
    | .delivers response =>
      if IsRedirect (R.code (.delivers response)) then
        if R.located response then R.follow left (later script)
        else R.stuck (R.status response)
      else R.code (.delivers response)

def workerReader : Reader where
  status response := if find [space] response ≠ 8 then 999 else statusWorker response
  located response := (afterLocation (List.map tolower) response).isSome
  stuck _ := 0

def veriflierReader : Reader where
  status response := statusVeriflier (qt.fromBytes response)
  located response := (afterLocation qt.toLower (qt.fromBytes response)).isSome
  stuck code := code

theorem follow_fails (R : Reader) (left : ℕ) {script : ℕ → Connection} (h : script 0 = .fails) :
    R.follow left script = 0 := by
  cases left <;> rw [Reader.follow, h]
  exact Eq.refl 0

theorem readStatus_code (response : List ℕ) (w : Checker) :
    (w.readStatus response).responseCode = workerReader.code (.delivers response) := by
  by_cases h : response.length = 0
  · rw [Checker.readStatus, if_pos h, Reader.code, if_pos h]
  · rw [Checker.readStatus, if_neg h, Reader.code, if_neg h]
    simp only [workerReader]
    split <;> rfl

theorem setHostResponse_follow (left : ℕ) : ∀ (script : ℕ → Connection) (w : Checker)
    {response : List ℕ}, script 0 = .delivers response →
    (w.setHostResponse left response (later script)).responseCode =
      workerReader.follow left script := by
  induction left with
  | zero =>
    intro script w response h
    rw [Checker.setHostResponse, Reader.follow, h, readStatus_code]
  | succ left ih =>
    intro script w response h
    have hcode := readStatus_code response w
    rw [Checker.setHostResponse, Reader.follow, h, hcode]
    dsimp only
    by_cases hr : IsRedirect (workerReader.code (.delivers response))
    · rw [if_pos hr, if_pos hr, setRedirectHostValuesWorker]
      cases hl : afterLocation (List.map tolower) response with
      | none =>
        rw [if_neg (by simp [workerReader, hl])]
        exact Eq.refl 0
      | some rest =>
        rw [if_pos (by simp [workerReader, hl])]
        dsimp only [Option.map]
        cases hs : later script 0 with
        | fails => exact (follow_fails workerReader left hs).symm
        | delivers response => exact ih (later script) _ hs
    · rw [if_neg hr, if_neg hr, hcode]

theorem checkHost_code (script : ℕ → Connection) (url : List ℕ) :
    (checkHost maxRedirects script url).responseCode = workerReader.follow maxRedirects script := by
  rw [checkHost]
  cases hs : script 0 with
  | fails => exact (follow_fails workerReader maxRedirects hs).symm
  | delivers response => exact setHostResponse_follow maxRedirects script _ hs

/-- What a response leads to, for a connection that has just been made. -/
inductive Progress (c : RemoteChecker) (response : List ℕ) : RemoteChecker → Prop where
  | ended {c'} : c'.connecting = false →
      c'.responseCode = (veriflierReader qt).code (.delivers response) →
      (IsRedirect c'.responseCode → maxRedirects ≤ c.redirects ∨
        (veriflierReader qt).located response = false) → Progress c response c'
  | redirected {c'} : c'.connecting = true → c'.responseCode = 0 →
      c'.redirects = c.redirects + 1 → c.redirects < maxRedirects →
      IsRedirect ((veriflierReader qt).code (.delivers response)) →
      (veriflierReader qt).located response = true → Progress c response c'

theorem readyRead_progress {c : RemoteChecker} (hcode : c.responseCode = 0)
    (hc : c.connecting = false) (response : List ℕ) :
    Progress qt maxRedirects c response (c.readyRead qt maxRedirects response) := by
  have hzero : ¬IsRedirect 0 := by decide
  by_cases hlen : response.length = 0
  · have hread : (veriflierReader qt).code (.delivers response) = 0 := if_pos hlen
    rw [RemoteChecker.readyRead, if_pos hlen]
    refine .ended hc (hcode.trans hread.symm) fun hr => ?_
    rw [hcode] at hr
    exact absurd hr hzero
  have hread : (veriflierReader qt).code (.delivers response) =
      statusVeriflier (qt.fromBytes response) := if_neg hlen
  rw [RemoteChecker.readyRead, if_neg hlen, if_pos hcode, RemoteChecker.parseResponseCode,
    if_neg hlen]
  dsimp only
  by_cases hz : statusVeriflier (qt.fromBytes response) = 0
  · rw [if_neg (by simpa using hz)]
    refine .ended hc hread.symm fun hr => ?_
    rw [hz] at hr
    exact absurd hr hzero
  rw [if_pos hz, RemoteChecker.processResponse]
  by_cases hr : IsRedirect (statusVeriflier (qt.fromBytes response))
  · rw [if_pos hr]
    dsimp only
    by_cases hmax : c.redirects + 1 ≤ maxRedirects
    · rw [if_pos hmax, setRedirectHostValuesVeriflier]
      cases hl : afterLocation qt.toLower (qt.fromBytes response) with
      | none =>
        refine .ended hc hread.symm fun _ => Or.inr ?_
        simp [veriflierReader, hl]
      | some rest =>
        refine .redirected rfl rfl rfl hmax (hread ▸ hr) ?_
        simp [veriflierReader, hl]
    · rw [if_neg hmax]
      exact .ended hc hread.symm fun _ => Or.inl (by omega)
  · rw [if_neg hr]
    exact .ended hc hread.symm fun hr' => absurd hr' hr

theorem code_of_redirect {R : Reader} {response : List ℕ}
    (h : IsRedirect (R.code (.delivers response))) :
    R.code (.delivers response) = R.status response := by
  by_cases hlen : response.length = 0
  · rw [Reader.code, if_pos hlen] at h
    exact absurd h (by decide)
  · exact if_neg hlen

theorem serve_follow (left : ℕ) : ∀ (script : ℕ → Connection) (c : RemoteChecker),
    c.responseCode = 0 → c.redirects + left = maxRedirects →
    (c.serve qt maxRedirects (left + 1) script).responseCode =
        (veriflierReader qt).follow left script ∧
      (c.serve qt maxRedirects (left + 1) script).finished = true := by
  induction left with
  | zero =>
    intro script c hcode hleft
    rw [RemoteChecker.serve, Reader.follow]
    cases script 0 with
    | fails => exact ⟨hcode, rfl⟩
    | delivers response =>
      have hp := readyRead_progress qt maxRedirects (c := { c with connecting := false }) hcode rfl
        response
      dsimp only
      generalize RemoteChecker.readyRead qt maxRedirects response _ = c' at hp ⊢
      cases hp with
      | ended hcon hread _ =>
        rw [if_neg (by simp [hcon])]
        exact ⟨hread, rfl⟩
      | redirected _ _ _ hlt _ _ => exact absurd hlt (by simp only; omega)
  | succ left ih =>
    intro script c hcode hleft
    rw [RemoteChecker.serve, Reader.follow]
    cases script 0 with
    | fails => exact ⟨hcode, rfl⟩
    | delivers response =>
      have hp := readyRead_progress qt maxRedirects (c := { c with connecting := false }) hcode rfl
        response
      dsimp only
      generalize RemoteChecker.readyRead qt maxRedirects response _ = c' at hp ⊢
      cases hp with
      | ended hcon hread hstop =>
        rw [if_neg (by simp [hcon])]
        refine ⟨hread.trans ?_, rfl⟩
        by_cases hr : IsRedirect ((veriflierReader qt).code (.delivers response))
        · -- the limit is not reached, so there is no location
          have hnot := (hstop (hread ▸ hr)).resolve_left (by simp only; omega)
          rw [if_pos hr, if_neg (by simp [hnot])]
          exact code_of_redirect hr
        · rw [if_neg hr]
      | redirected hcon hzero hcount _ hr hloc =>
        rw [if_pos hcon, if_pos hr, if_pos hloc]
        refine ih (later script) c' hzero ?_
        rw [hcount]
        simp only
        omega

/-- The veriflier's check ends, with the code of its reader. -/
theorem checkRemote_code (script : ℕ → Connection) (url : List ℕ) :
    (checkRemote qt maxRedirects script url).responseCode =
        (veriflierReader qt).follow maxRedirects script ∧
      (checkRemote qt maxRedirects script url).finished = true :=
  serve_follow qt maxRedirects maxRedirects script _ rfl (Nat.zero_add _)

theorem judge_running_iff (w : WorkerState.Worker) (now : ℤ) (res : WorkerState.Result)
    (server : SiteModel.Site) :
    w.judge now res server = .running ↔ UpInWorker res.rtt res.httpCode := by
  unfold WorkerState.Worker.judge UpInWorker
  split
  · exact iff_of_true rfl ‹_›
  · refine iff_of_false ?_ ‹_›
    split <;> decide

def SameVerdict (worker veriflier : ℤ) : Prop :=
  (worker < 400 ∧ worker ≠ 0) ↔ (0 < veriflier ∧ veriflier < 400)

instance (worker veriflier : ℤ) : Decidable (SameVerdict worker veriflier) := by
  unfold SameVerdict
  infer_instance

/-- Up to the end of the chain, a redirect that may be followed is followed by both sides,
and the code of the last response means the same verdict. -/
def Alike : ℕ → (ℕ → Connection) → Prop
  | 0, script => SameVerdict (workerReader.code (script 0)) ((veriflierReader qt).code (script 0))
  | left + 1, script =>
    match script 0 with
    | .fails => True
    | .delivers response =>
      let worker := workerReader.code (.delivers response)
      let veriflier := (veriflierReader qt).code (.delivers response)
      (IsRedirect worker ∧ IsRedirect veriflier ∧ workerReader.located response = true ∧
        (veriflierReader qt).located response = true ∧ Alike left (later script)) ∨
      (¬IsRedirect worker ∧ ¬IsRedirect veriflier ∧ SameVerdict worker veriflier)

/-- The veriflier's strings hold the bytes of the response, and its lower case is that of the
worker: so it is for ASCII. -/
def Plain (response : List ℕ) : Prop :=
  qt.fromBytes response = response ∧ qt.toLower response = response.map tolower

theorem alike_follow {left : ℕ} : ∀ {script : ℕ → Connection}, Alike qt left script →
    SameVerdict (workerReader.follow left script) ((veriflierReader qt).follow left script) := by
  induction left with
  | zero => exact fun h => h
  | succ left ih =>
    intro script h
    rw [Reader.follow, Reader.follow]
    rw [Alike] at h
    cases hs : script 0 with
    | fails =>
      have hdown : SameVerdict 0 0 := by decide
      exact hdown
    | delivers response =>
      rw [hs] at h
      rcases h with ⟨hw, hv, hlw, hlv, hrest⟩ | ⟨hw, hv, hsame⟩
      · dsimp only
        rw [if_pos hw, if_pos hlw, if_pos hv, if_pos hlv]
        exact ih hrest
      · dsimp only
        rw [if_neg hw, if_neg hv]
        exact hsame

section PlainResponses

variable {qt : Qt} {response : List ℕ}

theorem plain_located (h : Plain qt response) :
    (veriflierReader qt).located response = workerReader.located response := by
  simp only [veriflierReader, workerReader, h.1, afterLocation, h.2]

theorem plain_status (h : Plain qt response) :
    (workerReader.status response = 999 ∧ (veriflierReader qt).status response = -1) ∨
    ∃ text : List ℕ, text.length ≤ 3 ∧ workerReader.status response = atoi text ∧
      (veriflierReader qt).status response = toInt text := by
  by_cases hs : find [space] response = 8
  · refine Or.inr ⟨substr 9 3 response, List.length_take_le _ _, ?_, ?_⟩
    · simp only [workerReader, statusWorker, hs, ne_eq, not_true_eq_false, if_false]
    · simp only [veriflierReader, statusVeriflier, h.1, hs, if_true]
  · refine Or.inl ⟨?_, ?_⟩
    · simp only [workerReader, hs, ne_eq, not_false_eq_true, if_true]
    · simp only [veriflierReader, statusVeriflier, h.1, hs, if_false]

theorem plain_redirect (h : Plain qt response) :
    IsRedirect ((veriflierReader qt).code (.delivers response)) ↔
      IsRedirect (workerReader.code (.delivers response)) := by
  by_cases hlen : response.length = 0
  · simp only [Reader.code, if_pos hlen]
  simp only [Reader.code, if_neg hlen]
  rcases plain_status h with ⟨hw, hv⟩ | ⟨text, hshort, hw, hv⟩
  · rw [hw, hv]
    decide
  · rw [hw, hv]
    by_cases hint : IsInt text
    · rw [toInt_of_isInt hint]
    · refine iff_of_false ?_ fun hr => hint (isInt_of_short hshort ?_)
      · rw [toInt_of_not hint]
        decide
      · have hlow := hr.1
        omega

theorem same_verdict_of_text {text : List ℕ} (hshort : text.length ≤ 3) :
    SameVerdict (atoi text) (toInt text) ↔
      if IsInt text then 0 ≤ decimal text else atoi text = 0 := by
  by_cases hint : IsInt text
  · rw [if_pos hint, toInt_of_isInt hint, atoi_of_isInt hint, SameVerdict]
    constructor
    · intro h
      by_contra hneg
      have hup := h.mp ⟨by omega, by omega⟩
      omega
    · intro h
      constructor <;> intro hup <;> omega
  · have hsmall : atoi text ≤ 99 := by
      by_contra hlarge
      exact hint (isInt_of_short hshort (by omega))
    rw [if_neg hint, toInt_of_not hint, SameVerdict]
    constructor
    · intro h
      by_contra hne
      have hup := h.mp ⟨by omega, hne⟩
      omega
    · intro h
      exact iff_of_false (fun hw => hw.2 h) (fun hv => by omega)

end PlainResponses

/-- On plain responses the two sides part only where the verdicts do. -/
theorem follow_alike {left : ℕ} : ∀ {script : ℕ → Connection},
    (∀ n response, script n = .delivers response → Plain qt response) →
    SameVerdict (workerReader.follow left script) ((veriflierReader qt).follow left script) →
    Alike qt left script := by
  induction left with
  | zero => exact fun _ h => h
  | succ left ih =>
    intro script hplain h
    rw [Alike]
    rw [Reader.follow, Reader.follow] at h
    cases hs : script 0 with
    | fails => trivial
    | delivers response =>
      rw [hs] at h
      dsimp only at h ⊢
      have hp := hplain 0 response hs
      by_cases hw : IsRedirect (workerReader.code (.delivers response))
      · have hv := (plain_redirect hp).mpr hw
        rw [if_pos hw, if_pos hv, plain_located hp] at h
        by_cases hl : workerReader.located response = true
        · rw [if_pos hl, if_pos hl] at h
          refine Or.inl ⟨hw, hv, hl, (plain_located hp).trans hl, ih ?_ h⟩
          exact fun n => hplain (n + 1)
        · -- the worker gives up and the veriflier keeps the 3xx code
          rw [if_neg hl, if_neg hl] at h
          have hup : (veriflierReader qt).stuck ((veriflierReader qt).status response) =
            (veriflierReader qt).code (.delivers response) := (code_of_redirect hv).symm
          rw [hup] at h
          have hdown := h.mpr ⟨by have hlow := hv.1; omega, hv.2⟩
          exact absurd rfl hdown.2
      · have hv := mt (plain_redirect hp).mp hw
        rw [if_neg hw, if_neg hv] at h
        exact Or.inr ⟨hw, hv, h⟩

/-- Same verdict for the same server, where every redirect of the chain can be followed and the
last status is read alike; on plain responses nowhere else. -/
theorem same_verdict (script : ℕ → Connection) (url : List Char) {rttWorker rttVeriflier : ℤ}
    (hworker : 1000 ≤ rttWorker) (hveriflier : 1 ≤ rttVeriflier) :
    let points := url.map Char.toNat
    let same := (UpInWorker rttWorker
        (checkHost maxRedirects script (Encoding.utf8.text points)).responseCode ↔
      UpInVeriflier rttVeriflier
        (checkRemote qt maxRedirects script (Encoding.utf16.text points)).responseCode)
    (Alike qt maxRedirects script → same) ∧
      ((∀ n response, script n = .delivers response → Plain qt response) →
        (same ↔ Alike qt maxRedirects script)) := by
  dsimp only
  have hw : 0 < rttWorker := by omega
  have hv : 0 < rttVeriflier := by omega
  rw [checkHost_code, (checkRemote_code qt maxRedirects script _).1, UpInWorker, UpInVeriflier,
    and_iff_right hw, and_iff_right hv]
  exact ⟨alike_follow qt, fun hplain => ⟨follow_alike qt hplain, alike_follow qt⟩⟩

def asciiQt : Qt := ⟨fun bytes => bytes.takeWhile (· ≠ 0), List.map tolower⟩

def exampleUrl : List Char := "http://example.com/".toList

def movedThenFound : ℕ → Connection
  | 0 => .delivers (codes "HTTP/1.1 301 Moved\x0d\nLocation: http://example.org/\x0d\n\x0d\n")
  | 1 => .delivers (codes "HTTP/1.1 200 OK\x0d\n\x0d\n")
  | _ => .fails

theorem same_verdict_moved :
    UpInWorker 230000 (checkHost 2 movedThenFound
        (Encoding.utf8.text (exampleUrl.map Char.toNat))).responseCode ↔
      UpInVeriflier 230 (checkRemote asciiQt 2 movedThenFound
        (Encoding.utf16.text (exampleUrl.map Char.toNat))).responseCode :=
  have hlast : SameVerdict (workerReader.code (movedThenFound 1))
      ((veriflierReader asciiQt).code (movedThenFound 1)) := by decide
  (same_verdict asciiQt 2 movedThenFound exampleUrl (by decide) (by decide)).1
    (Or.inl ⟨by decide, by decide, by decide, by decide, Or.inr ⟨by decide, by decide, hlast⟩⟩)

/-- A redirect without a Location: the worker reports the site as down, the veriflier as up. -/
theorem missing_location_differs :
    ¬∀ (script : ℕ → Connection) (url : List Char),
      (UpInWorker 230000 (checkHost 2 script
          (Encoding.utf8.text (url.map Char.toNat))).responseCode ↔
        UpInVeriflier 230 (checkRemote asciiQt 2 script
          (Encoding.utf16.text (url.map Char.toNat))).responseCode) := by
  intro h
  have hsame := h (fun _ => .delivers (codes "HTTP/1.1 301 Moved\x0d\n\x0d\n")) exampleUrl
  exact absurd hsame (by decide)

end HttpVerdict
