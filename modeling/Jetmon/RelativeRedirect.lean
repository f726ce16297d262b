import Jetmon.LocationHeader
import Jetmon.UrlParts

/-! A redirect to a path. set_redirect_host_values resets port and TLS flag before it parses the
Location value, and puts back only the host name. -/
namespace RelativeRedirect

open TextSearch
open NumberText
open HostValues
open HttpVerdict
open RequestBuffer
open UrlParts
open LocationHeader

/-- A path that begins with a single slash, in one line. -/
structure IsPath (path : List ℕ) : Prop where
  slash : path.head? = some slash
  single : path[1]? ≠ some HostValues.slash
  line : ∀ u ∈ path, u ∉ crlf

/-- The first "location: " of a response has this value behind it, up to the end of the line. -/
def Located (lower : List ℕ → List ℕ) (content value : List ℕ) : Prop :=
  ∃ (i : ℕ) (rest : List ℕ), find locationHeader (lower content) = WithTop.some i ∧
    content.drop (i + 10) = value ++ (crlf ++ rest)

def Origin (h : Target) : Prop := h.port = 80 ∧ h.isSsl = false

section Read

variable {lower : List ℕ → List ℕ} {content value : List ℕ}

theorem afterLocation_located (hl : Located lower content value) (hline : ∀ u ∈ value, u ∉ crlf) :
    ∃ rest, afterLocation lower content = some (value ++ (crlf ++ rest)) := by
  obtain ⟨i, rest, hi, hdrop⟩ := hl
  refine ⟨rest, ?_⟩
  have hrest : substr (i + 10) (content.length - (i + 10)) content = value ++ (crlf ++ rest) := by
    rw [substr, List.take_of_length_le (by rw [List.length_drop]), hdrop]
  simp only [afterLocation, hi]
  change (if find crlf (substr _ _ _) = ⊤ then none else some (substr _ _ _)) = _
  rw [hrest, if_neg (find_line_ne_top hline rest)]

theorem worker_located (hl : Located (List.map tolower) content value)
    (hline : ∀ u ∈ value, u ∉ crlf) (h : Target) :
    setRedirectHostValuesWorker content h = some (redirected parseHostValuesWorker value h) := by
  obtain ⟨rest, hafter⟩ := afterLocation_located hl hline
  rw [setRedirectHostValuesWorker_eq, locationOf, hafter, Option.map_some,
    take_line (findAny_line hline rest), Option.map_some]

theorem veriflier_located {qt : Qt} (hl : Located qt.toLower content value)
    (hline : ∀ u ∈ value, u ∉ crlf) (h : Target) :
    setRedirectHostValuesVeriflier qt content h =
      some (redirected parseHostValuesVeriflier value h) := by
  have hcr : 13 ∉ value := fun hm => hline 13 hm (by decide)
  obtain ⟨rest, hafter⟩ := afterLocation_located hl hline
  rw [setRedirectHostValuesVeriflier_remote, remoteLocationOf, hafter, Option.map_some,
    take_line (find_line hcr rest), Option.map_some]

end Read

theorem strip_slash {pat : List ℕ} (hp : IsScheme pat) (us : List ℕ) :
    strip pat (slash :: us) = slash :: strip pat us ∧ found pat (slash :: us) = found pat us := by
  have hpos : find pat ([slash] ++ us) = find pat us + [slash].length :=
    UrlParts.find_delimiter hp (by decide) us
  exact strip_append hpos

def kept (path : List ℕ) : List ℕ := strip httpsScheme (strip httpScheme path)

theorem readDir_path (us : List ℕ) (port : ℤ) (isSsl : Bool) (toPort : List ℕ → ℤ) :
    (Target.readPort toPort ⟨slash :: us, [slash], port, isSsl⟩).readDir =
      ⟨[], slash :: us, port, isSsl⟩ := by
  have hstart : find [slash] (slash :: us) = 0 := find_at_start (List.prefix_append [slash] us)
  have hport : ¬PortLeads (slash :: us) := by
    rintro ⟨hlt, -⟩
    rw [hstart] at hlt
    exact not_lt_bot hlt
  have hdir : dirPos (slash :: us) = WithTop.some 0 := by
    rw [dirPos, hstart, min_eq_left zero_le, min_eq_left zero_le]
    rfl
  have hrooted : rooted (slash :: us) = slash :: us := by
    simp [rooted, slash, question, HostValues.hash]
  rw [Target.readPort, if_neg hport, Target.readDir, hdir, if_pos WithTop.coe_ne_top]
  dsimp only
  rw [WithTop.untopD_coe, Nat.sub_zero, substr, List.drop_zero, List.take_length, erase,
    Nat.zero_add,
    List.drop_length, hrooted]
  rfl

theorem parse_path (clear : Bool) (toPort : List ℕ → ℤ) {path : List ℕ}
    (h : path.head? = some slash) : parseHostValues clear toPort (fromUrl path) =
      ⟨[], kept path, if found httpsScheme (strip httpScheme path) then 443 else 80,
        found httpsScheme (strip httpScheme path)⟩ := by
  obtain ⟨us, rfl⟩ := List.head?_eq_some_iff.mp h
  obtain ⟨hhttp, -⟩ := strip_slash isScheme_http us
  obtain ⟨hhttps, -⟩ := strip_slash isScheme_https (strip httpScheme us)
  rw [parseHostValues, removeHttp_fromUrl, removeHttps_eq, removeHttp_eq, kept, hhttp, hhttps]
  simp only [fromUrl, hhttp, hhttps, Bool.or_false]
  exact readDir_path _ _ _ toPort

theorem redirected_iff (clear : Bool) (toPort : List ℕ → ℤ) {path : List ℕ}
    (hpath : path.head? = some slash) (h : Target) :
    redirected (parseHostValues clear toPort) path h = { h with hostDir := path } ↔
      Origin h ∧ ¬httpScheme <:+: path ∧ ¬httpsScheme <:+: path := by
  have hredirected : redirected (parseHostValues clear toPort) path h =
      ⟨h.hostName, kept path, if found httpsScheme (strip httpScheme path) then 443 else 80,
        found httpsScheme (strip httpScheme path)⟩ := by
    rw [redirected, parse_path clear toPort hpath]
    rfl
  rw [hredirected, Target.mk.injEq]
  constructor
  · rintro ⟨-, hkept, hport, htls⟩
    have hlength := congrArg List.length hkept
    have hhttp : ¬httpScheme <:+: path := by
      intro hin
      have hcut := strip_length hin
      have hle := strip_le httpsScheme (strip httpScheme path)
      have hseven : httpScheme.length = 7 := rfl
      rw [kept] at hlength
      omega
    rw [kept, strip_of_not hhttp] at hlength
    rw [strip_of_not hhttp] at hport htls
    have hhttps : ¬httpsScheme <:+: path := by
      intro hin
      have hcut := strip_length hin
      have height : httpsScheme.length = 8 := rfl
      omega
    have hnot : found httpsScheme path = false := Bool.eq_false_iff.mpr (mt found_iff.mp hhttps)
    rw [hnot] at hport htls
    exact ⟨⟨hport.symm, htls.symm⟩, hhttp, hhttps⟩
  · rintro ⟨⟨hport, htls⟩, hhttp, hhttps⟩
    have hnot : found httpsScheme path = false := Bool.eq_false_iff.mpr (mt found_iff.mp hhttps)
    rw [kept, strip_of_not hhttp, strip_of_not hhttps, hnot, hport, htls]
    exact ⟨rfl, rfl, rfl, rfl⟩

theorem infix_text (E : Encoding) {pat : List ℕ} (hne : pat ≠ []) (hp : ∀ p ∈ pat, p < 128)
    (t : List ℕ) : pat <:+: E.text t ↔ pat <:+: t := by
  rw [← not_iff_not, ← find_eq_top, ← find_eq_top, E.find_text hne hp, E.pos_eq_top]

theorem IsPath.encoded {path : List ℕ} (h : IsPath path) (E : Encoding) :
    (E.text path).head? = some HostValues.slash ∧ ∀ u ∈ E.text path, u ∉ crlf := by
  refine ⟨(head_text E (by decide)).mpr h.slash, fun u hu hcrlf => ?_⟩
  have hascii : ∀ v ∈ crlf, v < 128 := by decide
  exact h.line u ((E.mem_text (hascii u hcrlf)).mp hu) hcrlf

/-- For every state and every redirect to a path: host, port and TLS flag stay and the path becomes
the Location value, on both sides, if and only if the present target is a plain one on port 80 and
no scheme stands in the path. -/
theorem relative_redirect_iff (qt : Qt) {path : List ℕ} (hpath : IsPath path)
    {worker veriflier : Target} {bytes units : List ℕ}
    (hw : Located (List.map tolower) bytes (Encoding.utf8.text path))
    (hv : Located qt.toLower units (Encoding.utf16.text path)) :
    (setRedirectHostValuesWorker bytes worker =
        some { worker with hostDir := Encoding.utf8.text path } ∧
      setRedirectHostValuesVeriflier qt units veriflier =
        some { veriflier with hostDir := Encoding.utf16.text path }) ↔
      (Origin worker ∧ Origin veriflier) ∧ ¬httpScheme <:+: path ∧ ¬httpsScheme <:+: path := by
  obtain ⟨hslash, hline⟩ := hpath.encoded Encoding.utf8
  obtain ⟨hslash', hline'⟩ := hpath.encoded Encoding.utf16
  have hworker := redirected_iff false atoi hslash worker
  have hveriflier := redirected_iff true toInt hslash' veriflier
  rw [infix_text _ (by decide) (by decide), infix_text _ (by decide) (by decide)]
    at hworker hveriflier
  rw [worker_located hw hline, veriflier_located hv hline', Option.some_inj, Option.some_inj,
    parseHostValuesWorker, parseHostValuesVeriflier, hworker, hveriflier]
  constructor
  · rintro ⟨⟨hone, hnone⟩, htwo, -⟩
    exact ⟨⟨hone, htwo⟩, hnone⟩
  · rintro ⟨⟨hone, htwo⟩, hnone⟩
    exact ⟨⟨hone, hnone⟩, htwo, hnone⟩

def loginMoved : List ℕ := codes "HTTP/1.1 302 Found\x0d\nLocation: /login\x0d\n\x0d\n"

def loginPath : List ℕ := codes "/login"

theorem login_isPath : IsPath loginPath := ⟨rfl, by decide, by decide⟩

theorem login_located : Located (List.map tolower) loginMoved loginPath :=
  ⟨20, crlf, by decide, by decide⟩

theorem relative_redirect_plain :
    let h : Target := ⟨codes "example.com", [slash], 80, false⟩
    setRedirectHostValuesWorker loginMoved h =
        some { h with hostDir := Encoding.utf8.text loginPath } ∧
      setRedirectHostValuesVeriflier asciiQt loginMoved h =
        some { h with hostDir := Encoding.utf16.text loginPath } :=
  (relative_redirect_iff asciiQt login_isPath login_located login_located).mpr
    ⟨⟨⟨rfl, rfl⟩, rfl, rfl⟩, by decide, by decide⟩

/-- A site behind TLS that redirects to its login page is asked on port 80. -/
theorem tls_redirect_downgraded :
    ¬∀ (path : List ℕ) (worker veriflier : Target) (bytes units : List ℕ), IsPath path →
      Located (List.map tolower) bytes (Encoding.utf8.text path) →
      Located asciiQt.toLower units (Encoding.utf16.text path) →
      setRedirectHostValuesWorker bytes worker =
          some { worker with hostDir := Encoding.utf8.text path } ∧
        setRedirectHostValuesVeriflier asciiQt units veriflier =
          some { veriflier with hostDir := Encoding.utf16.text path } := by
  intro h
  have hkept := (h loginPath ⟨codes "example.com", [slash], 443, true⟩
    ⟨codes "example.com", [slash], 443, true⟩ loginMoved loginMoved login_isPath login_located
    login_located).1
  rw [worker_located login_located (login_isPath.encoded Encoding.points).2,
    Option.some_inj] at hkept
  exact absurd (congrArg Target.isSsl hkept) (by decide)

end RelativeRedirect
