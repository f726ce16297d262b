import Jetmon.HttpVerdict
import Jetmon.UrlParts

/-! The requests of one check in the worker, and the buffer they are copied into. Host name and
path come from the URL and from the Location headers of the servers, and nothing bounds the
length of a response. -/
namespace RequestBuffer

open TextSearch
open NumberText
open HostValues
open HttpVerdict
open UrlParts

def maxTcpBuffer : ℕ := 1024

/-- The text that HTTP_Checker::send_http_get of the addon copies into m_buf. -/
def sendHttpGet (h : Target) : List ℕ :=
  codes "HEAD " ++ h.hostDir ++ codes " HTTP/1.1\x0d\n" ++
    (codes "Host: " ++ h.hostName ++ codes "\x0d\n") ++
    codes "User-Agent: jetmon/1.0 (Jetpack Site Uptime Monitor by WordPress.com)\x0d\n" ++
    codes "Connection: close\x0d\n\x0d\n"

/-- The text and its terminator fit into m_buf. -/
def Fits (h : Target) : Prop := (sendHttpGet h).length < maxTcpBuffer

instance (h : Target) : Decidable (Fits h) := by
  unfold Fits
  infer_instance

/-- Checker.setHostResponse together with the members at each call of send_http_get. -/
def exchange : ℕ → List ℕ → (ℕ → Connection) → Checker → Checker × List Target
  | 0, response, _, w => (w.readStatus response, [w.target])
  | left + 1, response, script, w =>
    if IsRedirect (w.readStatus response).responseCode then
      match setRedirectHostValuesWorker response w.target with
      | none => ({ w with responseCode := 0, errorCode := 997 }, [w.target])
      | some target =>
        match script 0 with
        | .fails => ({ w with target := target, responseCode := 0, errorCode := 996 }, [w.target])
        | .delivers next =>
          let (w', sent) := exchange left next (later script)
            { w.readStatus response with target := target }
          (w', w.target :: sent)
    else (w.readStatus response, [w.target])

def requests (maxRedirects : ℕ) (script : ℕ → Connection) (url : List ℕ) : List Target :=
  match script 0 with
  | .fails => []
  | .delivers response =>
    (exchange maxRedirects response (later script) ⟨parseHostValuesWorker (fromUrl url), 0, 0⟩).2

/-- The requests are those of the check itself. -/
theorem exchange_checker (left : ℕ) : ∀ (response : List ℕ) (script : ℕ → Connection)
    (w : Checker), (exchange left response script w).1 =
    w.setHostResponse left response script := by
  induction left with
  | zero => exact fun _ _ _ => rfl
  | succ left ih =>
    intro response script w
    rw [exchange, Checker.setHostResponse]
    by_cases hr : IsRedirect (w.readStatus response).responseCode
    · rw [if_pos hr, if_pos hr]
      cases setRedirectHostValuesWorker response w.target with
      | none => rfl
      | some target =>
        dsimp only
        cases script 0 with
        | fails => rfl
        | delivers next => exact ih next (later script) _
    · rw [if_neg hr, if_neg hr]

def bare (text : List ℕ) : List ℕ :=
  let name := strip httpsScheme (strip httpScheme text)
  if PortLeads name ∧ 0 < atoi (afterColon name) then
    name.take (colonPos name) ++ fromSlash name
  else name

/-- The path begins with the first slash, and not with a query or fragment before it. -/
def SlashLeads (name : List ℕ) : Prop :=
  find [slash] name ≠ ⊤ ∧ find [slash] name ≤ find [question] name ∧
    find [slash] name ≤ find [hash] name

instance (name : List ℕ) : Decidable (SlashLeads name) := by
  unfold SlashLeads
  infer_instance

def hostLength (text : List ℕ) : ℕ := clip (dirPos (bare text)) (bare text).length

def extent (text : List ℕ) : ℕ := (bare text).length + if SlashLeads (bare text) then 0 else 1

theorem readPort_bare {h : Target} {text : List ℕ}
    (hname : h.hostName = strip httpsScheme (strip httpScheme text)) :
    (h.readPort atoi).hostName = bare text ∧ (h.readPort atoi).hostDir = h.hostDir := by
  have hbare : bare text = if PortLeads h.hostName ∧ 0 < atoi (afterColon h.hostName) then
      h.hostName.take (colonPos h.hostName) ++ fromSlash h.hostName else h.hostName := by
    rw [hname]
    rfl
  rw [hbare]
  by_cases hl : PortLeads h.hostName
  · rw [Target.readPort, if_pos hl, (portText_values hl).1, Target.usePort]
    by_cases hpos : 0 < atoi (afterColon h.hostName)
    · have hle := (leading_of_portLeads hl).le_nameEnd
      rw [if_pos hpos, if_pos ⟨hl, hpos⟩]
      refine ⟨?_, rfl⟩
      dsimp only
      rw [erase, Nat.add_sub_cancel' hle]
      rfl
    · rw [if_neg hpos, if_neg (fun h => hpos h.2)]
      exact ⟨rfl, rfl⟩
  · rw [Target.readPort, if_neg hl, if_neg (fun h => hl h.1)]
    exact ⟨rfl, rfl⟩

theorem readPort_text (text : List ℕ) :
    ((schemeless text).readPort atoi).hostName = bare text ∧
      ((schemeless text).readPort atoi).hostDir = [slash] := by
  have hname : (schemeless text).hostName = strip httpsScheme (strip httpScheme text) := by
    rw [schemeless, removeHttps_eq, removeHttp_eq]
    rfl
  have hdir : (schemeless text).hostDir = [slash] := by
    rw [schemeless, removeHttps_eq, removeHttp_eq]
    rfl
  obtain ⟨hport, hkeep⟩ := readPort_bare hname
  exact ⟨hport, hkeep.trans hdir⟩

theorem drop_dirPos {name : List ℕ} {m : ℕ} (hm : dirPos name = m) :
    (SlashLeads name → (name.drop m).head? = some slash) ∧
      (¬SlashLeads name → (name.drop m).head? = some question ∨
        (name.drop m).head? = some hash) := by
  have hhead : ∀ {d : ℕ}, find [d] name = m → (name.drop m).head? = some d := by
    intro d hd
    obtain ⟨post, hpost⟩ := prefix_of_find hd
    rw [← hpost]
    rfl
  rw [dirPos] at hm
  unfold SlashLeads
  constructor
  · rintro ⟨-, hq, hf⟩
    rw [min_eq_left hq, min_eq_left hf] at hm
    exact hhead hm
  · intro hnot
    rcases min_choice (min (find [slash] name) (find [question] name)) (find [HostValues.hash] name)
      with hmin | hmin
    · rcases min_choice (find [slash] name) (find [question] name) with hmin' | hmin'
      · refine absurd ⟨?_, ?_, ?_⟩ hnot
        · rw [← hmin', ← hmin, hm]
          exact WithTop.coe_ne_top
        · exact min_eq_left_iff.mp hmin'
        · rw [← hmin']
          exact min_eq_left_iff.mp hmin
      · exact Or.inl (hhead (hmin'.symm.trans (hmin.symm.trans hm)))
    · exact Or.inr (hhead (hmin.symm.trans hm))

theorem slashLeads_dirPos {name : List ℕ} (h : dirPos name = ⊤) : ¬SlashLeads name := by
  rintro ⟨hs, -, -⟩
  rw [dirPos, min_eq_top, min_eq_top] at h
  exact hs h.1.1

theorem readDir_length {h : Target} (hd : h.hostDir = [slash]) :
    h.readDir.hostName.length = clip (dirPos h.hostName) h.hostName.length ∧
      h.readDir.hostName.length + h.readDir.hostDir.length =
        h.hostName.length + if SlashLeads h.hostName then 0 else 1 := by
  have hname := congrArg List.length (readDir_hostName h)
  rw [List.length_take] at hname
  cases hm : dirPos h.hostName with
  | top =>
    rw [Target.readDir, if_neg (by simp [hm]), if_neg (slashLeads_dirPos hm), hd]
    exact ⟨rfl, rfl⟩
  | coe m =>
    have hle := dirPos_le h.hostName
    rw [hm] at hle hname
    have hle : m ≤ h.hostName.length := hle
    have hclip : clip (WithTop.some m) h.hostName.length = m := min_eq_left hle
    have hdir : h.readDir.hostDir = rooted (h.hostName.drop m) := by
      have huntop : (dirPos h.hostName).untopD 0 = m := by
        rw [hm]
        rfl
      rw [Target.readDir, if_pos (by simp [hm]), huntop]
      dsimp only
      rw [substr, List.take_of_length_le (by rw [List.length_drop])]
    rw [hclip, min_eq_left hle] at hname
    rw [hclip, hname, hdir, rooted]
    refine ⟨rfl, ?_⟩
    obtain ⟨hslash, hother⟩ := drop_dirPos hm
    have hdrop := List.length_drop (i := m) (l := h.hostName)
    by_cases hl : SlashLeads h.hostName
    · have hhead := hslash hl
      have hne : (h.hostName.drop m).length ≠ 0 := by
        intro hzero
        rw [List.length_eq_zero_iff.mp hzero] at hhead
        contradiction
      rw [if_pos hl, hhead, if_neg (not_or.mpr ⟨hne, by decide⟩)]
      omega
    · rw [if_neg hl, if_pos (Or.inr (hother hl)), List.length_cons]
      omega

theorem parse_length (text : List ℕ) :
    (parseHostValuesWorker (fromUrl text)).hostName.length = hostLength text ∧
      (parseHostValuesWorker (fromUrl text)).hostName.length +
        (parseHostValuesWorker (fromUrl text)).hostDir.length = extent text := by
  obtain ⟨hname, hdir⟩ := readPort_text text
  have hlen := readDir_length hdir
  rw [hname] at hlen
  exact hlen

theorem sendHttpGet_length (h : Target) :
    (sendHttpGet h).length = h.hostName.length + h.hostDir.length + 116 := by
  have hhead : (codes "HEAD ").length = 5 := by decide
  have hversion : (codes " HTTP/1.1\x0d\n").length = 11 := by decide
  have hhost : (codes "Host: ").length = 6 := by decide
  have hend : (codes "\x0d\n").length = 2 := by decide
  have hagent :
    (codes "User-Agent: jetmon/1.0 (Jetpack Site Uptime Monitor by WordPress.com)\x0d\n").length
      = 71 := by decide
  have hclose : (codes "Connection: close\x0d\n\x0d\n").length = 21 := by decide
  simp only [sendHttpGet, List.length_append, hhead, hversion, hhost, hend, hagent, hclose]
  omega

def locationOf (response : List ℕ) : Option (List ℕ) :=
  (afterLocation (List.map tolower) response).map fun rest =>
    rest.take (clip (findAny crlf rest) rest.length)

theorem setRedirectHostValuesWorker_eq (response : List ℕ) (h : Target) :
    setRedirectHostValuesWorker response h =
      (locationOf response).map fun location => redirected parseHostValuesWorker location h := by
  rw [setRedirectHostValuesWorker, locationOf, Option.map_map]
  refine congrArg (Option.map · _) (funext fun rest => ?_)
  exact congrArg (redirected parseHostValuesWorker · h) (erase_clip (findAny crlf rest) rest)

def followed : ℕ → List ℕ → (ℕ → Connection) → List (List ℕ)
  | 0, _, _ => []
  | left + 1, response, script =>
    if IsRedirect (workerReader.code (.delivers response)) then
      match locationOf response, script 0 with
      | some location, .delivers next => location :: followed left next (later script)
      | _, _ => []
    else []

def texts (maxRedirects : ℕ) (script : ℕ → Connection) (url : List ℕ) : List (List ℕ) :=
  match script 0 with
  | .fails => []
  | .delivers response => url :: followed maxRedirects response (later script)

/-- Host name and path of each text are short. A relative one is used with the host name of
the request before, of which `host` is the length. -/
def Short (host : ℕ) : List (List ℕ) → Prop
  | [] => True
  | text :: rest =>
    if hostLength text = 0 then host + extent text ≤ 907 ∧ Short host rest
    else extent text ≤ 907 ∧ Short (hostLength text) rest

theorem redirected_length (text : List ℕ) (h : Target) :
    let h' := redirected parseHostValuesWorker text h
    if hostLength text = 0 then h'.hostName.length = h.hostName.length ∧
      h'.hostName.length + h'.hostDir.length = h.hostName.length + extent text
    else h'.hostName.length = hostLength text ∧
      h'.hostName.length + h'.hostDir.length = extent text := by
  obtain ⟨hhost, hall⟩ := parse_length text
  dsimp only [redirected]
  rw [hhost]
  by_cases hzero : hostLength text = 0
  · rw [if_pos hzero, if_pos hzero]
    refine ⟨rfl, ?_⟩
    dsimp only
    omega
  · rw [if_neg hzero, if_neg hzero]
    exact ⟨hhost, hall⟩

theorem fits_iff (h : Target) : Fits h ↔ h.hostName.length + h.hostDir.length ≤ 907 := by
  rw [Fits, sendHttpGet_length, maxTcpBuffer]
  omega

theorem exchange_fits (left : ℕ) : ∀ (response : List ℕ) (script : ℕ → Connection) (w : Checker),
    (∀ h ∈ (exchange left response script w).2, Fits h) ↔
      Fits w.target ∧ Short w.target.hostName.length (followed left response script) := by
  induction left with
  | zero =>
    intro response script w
    simp [exchange, followed, Short]
  | succ left ih =>
    intro response script w
    rw [exchange, followed, readStatus_code, setRedirectHostValuesWorker_eq]
    by_cases hr : IsRedirect (workerReader.code (.delivers response))
    · rw [if_pos hr, if_pos hr]
      cases locationOf response with
      | none => simp [Short]
      | some location =>
        dsimp only [Option.map]
        cases script 0 with
        | fails => simp [Short]
        | delivers next =>
          have hnext := ih next (later script)
            { w.readStatus response with
              target := redirected parseHostValuesWorker location w.target }
          have hlength := redirected_length location w.target
          dsimp only at hnext hlength ⊢
          rw [List.forall_mem_cons, hnext, Short, fits_iff (redirected _ _ _)]
          refine and_congr_right fun _ => ?_
          by_cases hzero : hostLength location = 0
          · rw [if_pos hzero] at hlength ⊢
            rw [hlength.2, hlength.1]
          · rw [if_neg hzero] at hlength ⊢
            rw [hlength.2, hlength.1]
    · rw [if_neg hr, if_neg hr]
      simp [Short]

/-- The buffer holds every request of a check, for whatever the servers answer, if and only if
host name and path of the URL and of every redirect followed have at most 907 bytes. -/
theorem requests_fit_iff (maxRedirects : ℕ) (script : ℕ → Connection) (url : List ℕ) :
    (∀ h ∈ requests maxRedirects script url, Fits h) ↔ Short 0 (texts maxRedirects script url) := by
  rw [requests, texts]
  cases script 0 with
  | fails => simp [Short]
  | delivers response =>
    have hcheck := exchange_fits maxRedirects response (later script)
      ⟨parseHostValuesWorker (fromUrl url), 0, 0⟩
    obtain ⟨hhost, hall⟩ := parse_length url
    dsimp only at hcheck ⊢
    rw [hcheck, fits_iff, hall, hhost, Short]
    by_cases hzero : hostLength url = 0
    · rw [if_pos hzero, hzero, zero_add]
    · rw [if_neg hzero]

def longRedirect : ℕ → Connection
  | 0 => .delivers (codes "HTTP/1.1 301 Moved\x0d\nLocation: /" ++ List.replicate 1000 97 ++
      codes "\x0d\n\x0d\n")
  | 1 => .delivers (codes "HTTP/1.1 200 OK\x0d\n\x0d\n")
  | _ => .fails

theorem long_location_overflows :
    ¬∀ (script : ℕ → Connection) (url : List Char), url.length ≤ 300 →
      ∀ h ∈ requests 2 script (Encoding.utf8.text (url.map Char.toNat)), Fits h := by
  intro h
  have hall := h longRedirect exampleUrl (by decide)
  revert hall
  decide +kernel

end RequestBuffer
