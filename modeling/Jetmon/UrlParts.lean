import Jetmon.HostValues

/-! URLs put together from their parts, and how parse_host_values of the addon takes them apart
again. It removes a scheme wherever it finds one, and it erases the port up to the first slash. -/
namespace UrlParts

open TextSearch
open NumberText
open HostValues

inductive Scheme where
  | absent | http | https
  deriving DecidableEq, Repr

def Scheme.text : Scheme → List ℕ
  | .absent => []
  | .http => httpScheme
  | .https => httpsScheme

def delimiters : List ℕ := [slash, question, hash, colon]

def Opens (rest : List ℕ) : Prop :=
  rest = [] ∨ rest.head? = some slash ∨ rest.head? = some question ∨ rest.head? = some hash

instance (rest : List ℕ) : Decidable (Opens rest) := by
  unfold Opens
  infer_instance

/-- A URL by its parts; `port` are the digits of the port. -/
structure Url where
  scheme : Scheme
  host : List ℕ
  port : Option (List ℕ)
  rest : List ℕ
  host_ne : host ≠ []
  host_plain : ∀ u ∈ host, u ∉ delimiters
  port_digits : ∀ digits ∈ port, digits.all isDigit = true
  port_range : ∀ digits ∈ port, 1 ≤ value digits ∧ value digits ≤ 65535
  rest_opens : Opens rest

def writtenPort (port : Option (List ℕ)) : List ℕ := port.elim [] (colon :: ·)

def Url.front (u : Url) : List ℕ := u.host ++ writtenPort u.port

def Url.text (u : Url) : List ℕ := u.scheme.text ++ (u.front ++ u.rest)

def Url.dir (u : Url) : List ℕ :=
  if u.rest = [] then [slash]
  else if u.rest.head? = some slash then u.rest
  else slash :: u.rest

def Url.portNumber (u : Url) : ℤ :=
  match u.port with
  | some digits => value digits
  | none => if u.scheme = .https then 443 else 80

/-- What the members should be. -/
def Url.target (u : Url) : Target := ⟨u.host, u.dir, u.portNumber, u.scheme = .https⟩

/-- No scheme that the parser looks for stands in the rest, and a port is followed by a path or
by nothing. -/
structure Url.Plain (u : Url) : Prop where
  noHttp : u.scheme ≠ .http → ¬httpScheme <:+: u.rest
  noHttps : u.scheme ≠ .https → ¬httpsScheme <:+: u.rest
  path : u.port ≠ none → u.rest = [] ∨ u.rest.head? = some slash

def isPlain (u : ℕ) : Bool := decide (u ∉ delimiters)

structure IsScheme (pat : List ℕ) : Prop where
  shape : ∃ letter letters more, pat = letter :: letters ++ colon :: slash :: more ∧
    ∀ u ∈ letter :: letters, isPlain u = true

theorem isScheme_http : IsScheme httpScheme := ⟨104, codes "ttp", [slash], rfl, by decide⟩

theorem isScheme_https : IsScheme httpsScheme := ⟨104, codes "ttps", [slash], rfl, by decide⟩

def Bare (xs : List ℕ) : Prop := ∀ ys, xs.dropWhile isPlain ≠ colon :: slash :: ys

variable {pat us xs r : List ℕ}

theorem Bare.append (hu : ∀ u ∈ us, isPlain u = true) (h : Bare xs) : Bare (us ++ xs) := by
  intro ys hys
  rw [List.dropWhile_append_of_pos hu] at hys
  exact h ys hys

theorem Bare.not_prefix (hp : IsScheme pat) (h : Bare xs) : ¬pat <+: xs := by
  obtain ⟨letter, letters, more, rfl, hl⟩ := hp
  rintro ⟨ys, rfl⟩
  have hcolon : ¬isPlain colon = true := by decide
  refine h (more ++ ys) ?_
  rw [List.append_assoc, List.dropWhile_append_of_pos hl, List.cons_append,
    List.dropWhile_cons_of_neg hcolon, List.cons_append]

theorem find_plain (hp : IsScheme pat) (hu : ∀ u ∈ us, isPlain u = true) (h : Bare xs) :
    find pat (us ++ xs) = find pat xs + us.length := by
  induction us with
  | nil => simp
  | cons u us ih =>
    have hus : ∀ v ∈ us, isPlain v = true := fun v hv => hu v (List.mem_cons_of_mem _ hv)
    have hbare : Bare (u :: (us ++ xs)) := h.append hu
    rw [List.cons_append, find_cons (hbare.not_prefix hp), ih hus, List.length_cons]
    push_cast
    rw [add_assoc]

theorem find_delimiter (hp : IsScheme pat) {d : ℕ} (hd : ¬isPlain d = true) (xs : List ℕ) :
    find pat (d :: xs) = find pat xs + 1 := by
  apply find_cons
  obtain ⟨letter, letters, more, rfl, hl⟩ := hp
  intro hpre
  have hletter := hl letter (List.mem_cons_self ..)
  rw [(List.cons_prefix_cons.mp hpre).1] at hletter
  exact hd hletter

theorem opens_head (h : Opens r) {u : ℕ} (hu : r.head? = some u) :
    u ∈ [slash, question, hash] := by
  rcases h with rfl | h | h | h
  · contradiction
  all_goals
    rw [h] at hu
    rw [← Option.some.inj hu]
    decide

theorem opens_delimiter {u : ℕ} (h : Opens (u :: us)) : ¬isPlain u = true := by
  have hu := opens_head h (u := u) rfl
  fin_cases hu <;> decide

theorem Opens.bare (h : Opens r) : Bare r := by
  intro ys hys
  cases r with
  | nil => contradiction
  | cons u us =>
    have hu := opens_head h (u := u) rfl
    rw [List.dropWhile_cons_of_neg (opens_delimiter h)] at hys
    obtain rfl := (List.cons.inj hys).1
    exact absurd hu (by decide)

theorem digit_plain {u : ℕ} (h : isDigit u = true) : isPlain u = true := by
  refine decide_eq_true fun hu => ?_
  fin_cases hu <;> exact absurd h (by decide)

theorem Url.digits_ne (u : Url) {digits : List ℕ} (h : digits ∈ u.port) : digits ≠ [] := by
  rintro rfl
  exact absurd (u.port_range [] h).1 (by decide)

theorem Url.host_isPlain (u : Url) : ∀ v ∈ u.host, isPlain v = true :=
  fun v hv => decide_eq_true (u.host_plain v hv)

theorem Url.digits_plain (u : Url) {digits : List ℕ} (h : digits ∈ u.port) :
    ∀ v ∈ digits, isPlain v = true :=
  fun v hv => digit_plain (List.all_eq_true.mp (u.port_digits digits h) v hv)

theorem find_front (hp : IsScheme pat) (u : Url) (hr : Opens r) :
    find pat (u.front ++ r) = find pat r + u.front.length := by
  rw [Url.front, List.append_assoc]
  cases hport : u.port with
  | none => simpa [writtenPort] using find_plain hp u.host_isPlain hr.bare
  | some digits =>
    have hdigits := find_plain hp (u.digits_plain hport) hr.bare
    have hbare : Bare (colon :: (digits ++ r)) := by
      obtain ⟨d, ds, rfl⟩ := List.exists_cons_of_ne_nil (u.digits_ne hport)
      intro ys hys
      have hcolon : ¬isPlain colon = true := by decide
      rw [List.dropWhile_cons_of_neg hcolon, List.cons_append] at hys
      have hd := u.digits_plain hport d (List.mem_cons_self ..)
      rw [(List.cons.inj (List.cons.inj hys).2).1] at hd
      exact absurd hd (by decide)
    have hfind := find_plain hp u.host_isPlain hbare
    rw [find_delimiter hp (by decide), hdigits] at hfind
    simp only [writtenPort, Option.elim_some, List.cons_append, hfind, List.length_append,
      List.length_cons]
    push_cast
    ring

def strip (pat xs : List ℕ) : List ℕ := (cut pat xs).getD xs

def found (pat xs : List ℕ) : Bool := (cut pat xs).isSome

theorem strip_append (h : find pat (us ++ xs) = find pat xs + us.length) :
    strip pat (us ++ xs) = us ++ strip pat xs ∧ found pat (us ++ xs) = found pat xs := by
  simp only [strip, found, cut_append h]
  cases cut pat xs <;> exact ⟨rfl, rfl⟩

theorem strip_start (pat xs : List ℕ) :
    strip pat (pat ++ xs) = xs ∧ found pat (pat ++ xs) = true := by
  simp only [strip, found, cut_start]
  exact ⟨rfl, rfl⟩

theorem found_iff : found pat xs = true ↔ pat <:+: xs := by
  rw [found, ← not_iff_not, ← cut_eq_none]
  cases cut pat xs <;> simp

theorem strip_of_not (h : ¬pat <:+: xs) : strip pat xs = xs := by
  rw [strip, cut_eq_none.mpr h]
  rfl

theorem strip_length (h : pat <:+: xs) : (strip pat xs).length + pat.length = xs.length := by
  cases hcut : cut pat xs with
  | none => exact absurd h (cut_eq_none.mp hcut)
  | some ys => simpa [strip, hcut] using cut_length hcut

theorem strip_le (pat xs : List ℕ) : (strip pat xs).length ≤ xs.length := by
  by_cases h : pat <:+: xs
  · have hlen := strip_length h
    omega
  · rw [strip_of_not h]

theorem Opens.strip (hp : IsScheme pat) (h : Opens r) : Opens (strip pat r) := by
  cases r with
  | nil =>
    apply Or.inl
    have hlen := strip_le pat []
    exact List.length_eq_zero_iff.mp (Nat.le_zero.mp hlen)
  | cons u us =>
    have hpos : find pat ([u] ++ us) = find pat us + [u].length :=
      find_delimiter hp (opens_delimiter h) us
    have hcut := (strip_append hpos).1
    rw [List.singleton_append, List.singleton_append] at hcut
    rw [hcut]
    exact h.imp nofun id

theorem removeHttp_eq (h : Target) :
    h.removeHttp false = { h with hostName := UrlParts.strip httpScheme h.hostName } := by
  simp only [Target.removeHttp, UrlParts.strip]
  cases cut httpScheme h.hostName <;> rfl

theorem removeHttps_eq (h : Target) : h.removeHttps =
    { h with
      hostName := UrlParts.strip httpsScheme h.hostName
      port := if found httpsScheme h.hostName then 443 else h.port
      isSsl := found httpsScheme h.hostName || h.isSsl } := by
  cases hcut : cut httpsScheme h.hostName with
  | none => simp [Target.removeHttps, UrlParts.strip, found, hcut]
  | some name => simp [Target.removeHttps, UrlParts.strip, found, hcut]

def Url.kept (u : Url) : List ℕ :=
  match u.scheme with
  | .absent => UrlParts.strip httpsScheme (UrlParts.strip httpScheme u.rest)
  | .http => UrlParts.strip httpsScheme u.rest
  | .https => UrlParts.strip httpScheme u.rest

def Url.tls (u : Url) : Bool :=
  match u.scheme with
  | .absent => found httpsScheme (UrlParts.strip httpScheme u.rest)
  | .http => found httpsScheme u.rest
  | .https => true

theorem Url.kept_opens (u : Url) : Opens u.kept := by
  unfold Url.kept
  cases u.scheme with
  | absent => exact (u.rest_opens.strip isScheme_http).strip isScheme_https
  | http => exact u.rest_opens.strip isScheme_https
  | https => exact u.rest_opens.strip isScheme_http

theorem http_in_https (xs : List ℕ) :
    find httpScheme (httpsScheme ++ xs) = find httpScheme xs + httpsScheme.length := by
  have hfirst : ¬httpScheme <+: httpsScheme ++ xs := by
    rintro ⟨ys, hys⟩
    have hfifth := congrArg (·[4]?) hys
    exact absurd hfifth (by simp [httpScheme, httpsScheme, codes])
  have hplain : 104 ∉ codes "ttps://" := by decide
  have hrest : find httpScheme (codes "ttps://" ++ xs) =
      find httpScheme xs + (codes "ttps://").length := find_skip hplain xs
  have hcons : httpsScheme ++ xs = 104 :: (codes "ttps://" ++ xs) := rfl
  rw [hcons] at hfirst ⊢
  have hlen : (httpsScheme.length : WithTop ℕ) = (codes "ttps://").length + 1 := by decide
  rw [find_cons hfirst, hrest, hlen, add_assoc]

theorem schemeless_text (u : Url) : schemeless u.text =
    ⟨u.front ++ u.kept, [slash], if u.tls then 443 else 80, u.tls⟩ := by
  have hhttp := strip_append (find_front isScheme_http u u.rest_opens)
  rw [schemeless, removeHttps_eq, removeHttp_eq, fromUrl, Url.text]
  dsimp only
  unfold Url.kept Url.tls
  cases u.scheme with
  | absent =>
    have hhttps := strip_append
      (find_front isScheme_https u (u.rest_opens.strip isScheme_http))
    simp only [Scheme.text, List.nil_append, hhttp.1, hhttps.1, hhttps.2, Bool.or_false]
  | http =>
    have hhttps := strip_append (find_front isScheme_https u u.rest_opens)
    simp only [Scheme.text, (strip_start httpScheme _).1, hhttps.1, hhttps.2, Bool.or_false]
  | https =>
    have hscheme := strip_append (http_in_https (u.front ++ u.rest))
    simp only [Scheme.text, hscheme.1, hhttp.1, (strip_start httpsScheme _).1,
      (strip_start httpsScheme _).2, ↓reduceIte, Bool.or_false]

theorem Url.find_host (u : Url) {d : ℕ} (hd : d ∈ delimiters) (xs : List ℕ) :
    find [d] (u.host ++ xs) = find [d] xs + u.host.length :=
  find_skip (fun hm => u.host_plain d hm hd) xs

theorem dirPos_opens (h : Opens r) : dirPos r = if r = [] then ⊤ else 0 := by
  cases r with
  | nil => rfl
  | cons d ys =>
    have hstart : find [d] (d :: ys) = 0 := find_at_start (List.prefix_append [d] ys)
    have hzero : ∀ e, e = d → find [e] (d :: ys) ≤ 0 := fun e he => le_of_eq (he ▸ hstart)
    rw [if_neg (List.cons_ne_nil d ys), dirPos, ← le_zero_iff, min_le_iff, min_le_iff]
    have hd := opens_head h (u := d) rfl
    simp only [List.mem_cons, List.not_mem_nil, or_false] at hd
    rcases hd with rfl | rfl | rfl
    · exact Or.inl (Or.inl (le_of_eq hstart))
    · exact Or.inl (Or.inr (le_of_eq hstart))
    · exact Or.inr (le_of_eq hstart)

theorem Url.dirPos_host (u : Url) (xs : List ℕ) :
    dirPos (u.host ++ xs) = dirPos xs + u.host.length := by
  simp only [dirPos]
  rw [u.find_host (by decide), u.find_host (by decide), u.find_host (by decide),
    min_add_add_right, min_add_add_right]

theorem Url.readDir_host (u : Url) (hr : Opens r) (port : ℤ) (isSsl : Bool) :
    Target.readDir ⟨u.host ++ r, [slash], port, isSsl⟩ = ⟨u.host, rooted r, port, isSsl⟩ := by
  have hpos := u.dirPos_host r
  rw [dirPos_opens hr] at hpos
  by_cases hnil : r = []
  · subst hnil
    rw [if_pos rfl, top_add] at hpos
    rw [Target.readDir, if_neg (by simpa using hpos), List.append_nil]
    rfl
  · rw [if_neg hnil, zero_add] at hpos
    have hcut : u.host.length + ((u.host ++ r).length - u.host.length) = (u.host ++ r).length := by
      rw [List.length_append]
      omega
    have huntop : (dirPos (u.host ++ r)).untopD 0 = u.host.length := by
      rw [hpos]
      rfl
    rw [Target.readDir, if_pos (by rw [hpos]; exact WithTop.coe_ne_top)]
    dsimp only
    rw [huntop, erase, hcut, List.drop_length, List.append_nil, List.take_left, substr,
      List.drop_left,
      List.take_of_length_le (by rw [List.length_append]; omega)]

def fromSlash (rest : List ℕ) : List ℕ := rest.drop (clip (find [slash] rest) rest.length)

theorem fromSlash_opens (rest : List ℕ) :
    fromSlash rest = [] ∨ (fromSlash rest).head? = some slash := by
  cases hs : find [slash] rest with
  | top =>
    apply Or.inl
    rw [fromSlash, hs]
    exact List.drop_length
  | coe j =>
    obtain ⟨post, hpost⟩ := prefix_of_find hs
    apply Or.inr
    have hclip : clip (find [slash] rest) rest.length = j := by
      rw [hs]
      exact min_eq_left (find_le hs)
    rw [fromSlash, hclip, ← hpost]
    rfl

theorem fromSlash_of_path (h : r = [] ∨ r.head? = some slash) : fromSlash r = r := by
  rcases h with rfl | h
  · rfl
  · obtain ⟨ys, rfl⟩ := List.head?_eq_some_iff.mp h
    have hstart : find [slash] (slash :: ys) = ((0 : ℕ) : WithTop ℕ) :=
      find_at_start (List.prefix_append [slash] ys)
    have hclip : clip (find [slash] (slash :: ys)) (slash :: ys).length = 0 := by
      rw [hstart]
      exact Nat.zero_min _
    rw [fromSlash, hclip, List.drop_zero]

theorem Url.no_port (u : Url) (hport : u.port = none) (hr : Opens r) :
    ¬PortLeads (u.front ++ r) := by
  rw [Url.front, hport]
  simp only [writtenPort, Option.elim_none, List.append_nil]
  rintro ⟨hslash, hquestion, hhash⟩
  rw [u.find_host (by decide), u.find_host (by decide)] at hslash hquestion hhash
  cases r with
  | nil => exact absurd hslash (lt_irrefl ⊤)
  | cons d ys =>
    -- the rest begins in front of its colon
    have hzero : find [d] (d :: ys) = 0 := find_at_start (List.prefix_append [d] ys)
    have hnot : ¬find [colon] (d :: ys) + u.host.length < find [d] (d :: ys) + u.host.length := by
      rw [hzero, zero_add]
      exact not_lt.mpr le_add_self
    have hd := opens_head hr (u := d) rfl
    simp only [List.mem_cons, List.not_mem_nil, or_false] at hd
    rcases hd with rfl | rfl | rfl
    · exact hnot hslash
    · exact hnot hquestion
    · exact hnot hhash

theorem Url.find_behind (u : Url) {digits : List ℕ} (hport : digits ∈ u.port) {d : ℕ}
    (hd : d ∈ [slash, question, hash]) (r : List ℕ) :
    find [d] (u.front ++ r) = find [d] r + (u.host.length + 1 + digits.length : ℕ) := by
  have hdelimiter : d ∈ delimiters := by
    fin_cases hd <;> decide
  have hnot : d ∉ colon :: digits := by
    rw [List.mem_cons, not_or]
    refine ⟨?_, fun hm => ?_⟩
    · fin_cases hd <;> decide
    · have hplain := u.digits_plain hport d hm
      exact absurd hdelimiter (of_decide_eq_true hplain)
  rw [Url.front, Option.mem_def.mp hport, writtenPort, Option.elim_some, List.append_assoc,
    u.find_host hdelimiter, find_skip hnot, List.length_cons]
  push_cast
  ring

theorem Url.find_port (u : Url) {digits : List ℕ} (hport : digits ∈ u.port) (r : List ℕ) :
    find [colon] (u.front ++ r) = (u.host.length : ℕ) := by
  have hstart : find [colon] (colon :: (digits ++ r)) = 0 :=
    find_at_start (List.prefix_append [colon] _)
  rw [Url.front, Option.mem_def.mp hport, writtenPort, Option.elim_some, List.append_assoc,
    u.find_host (by decide), List.cons_append, hstart, zero_add]

theorem Url.port_leads (u : Url) {digits : List ℕ} (hport : digits ∈ u.port) (r : List ℕ) :
    PortLeads (u.front ++ r) := by
  have hlt : ∀ d ∈ [slash, question, hash],
      find [colon] (u.front ++ r) < find [d] (u.front ++ r) := by
    intro d hd
    have hlen : u.host.length < u.host.length + 1 + digits.length := by omega
    rw [u.find_port hport, u.find_behind hport hd]
    refine lt_of_lt_of_le ?_ le_add_self
    exact_mod_cast hlen
  exact ⟨hlt slash (by decide), hlt question (by decide), hlt hash (by decide)⟩

theorem Url.atoi_port (u : Url) {digits : List ℕ} (hport : digits ∈ u.port) (hr : Opens r) :
    atoi (digits ++ r) = value digits := by
  have hall := u.port_digits digits hport
  obtain ⟨-, hmax⟩ := u.port_range digits hport
  have hatoi : atoi digits = value digits :=
    (atoi_of_isInt (isInt_digits hall (u.digits_ne hport) (by omega))).trans (decimal_digits hall)
  cases r with
  | nil => rw [List.append_nil, hatoi]
  | cons e ys =>
    have hstops : Stops e := by
      have he := opens_head hr (u := e) rfl
      fin_cases he <;> decide
    rw [atoi_stop hstops, hatoi]

theorem Url.nameEnd_port (u : Url) {digits : List ℕ} (hport : digits ∈ u.port) (r : List ℕ) :
    (u.front ++ r).drop (nameEnd (u.front ++ r)) = fromSlash r := by
  have hlen : u.front.length = u.host.length + 1 + digits.length := by
    rw [Url.front, Option.mem_def.mp hport, writtenPort, Option.elim_some, List.length_append,
      List.length_cons]
    omega
  have hfind := u.find_behind hport (show slash ∈ [slash, question, hash] by decide) r
  rw [← hlen] at hfind
  have hend : nameEnd (u.front ++ r) = u.front.length + clip (find [slash] r) r.length := by
    rw [nameEnd, hfind, List.length_append]
    cases find [slash] r with
    | top => rfl
    | coe j =>
      change min (j + u.front.length) (u.front.length + r.length) = u.front.length + min j r.length
      omega
  rw [hend, List.drop_length_add_append, fromSlash]

theorem Url.readPort_front (u : Url) (hr : Opens r) (port : ℤ) (isSsl : Bool) :
    Target.readPort atoi ⟨u.front ++ r, [slash], port, isSsl⟩ =
      match u.port with
      | none => ⟨u.host ++ r, [slash], port, isSsl⟩
      | some digits => ⟨u.host ++ fromSlash r, [slash], value digits, isSsl⟩ := by
  cases hport : u.port with
  | none =>
    rw [Target.readPort, if_neg (u.no_port hport hr), Url.front, hport]
    simp only [writtenPort, Option.elim_none, List.append_nil]
  | some digits =>
    have hl := u.port_leads hport r
    have hpos : colonPos (u.front ++ r) = u.host.length := by
      rw [colonPos, u.find_port hport]
      rfl
    have hafter : afterColon (u.front ++ r) = digits ++ r := by
      rw [afterColon, hpos, Url.front, hport, writtenPort, Option.elim_some, List.append_assoc,
        List.drop_length_add_append]
      rfl
    have hnumber : atoi (portText (u.front ++ r)) = value digits := by
      rw [(portText_values hl).1, hafter, u.atoi_port hport hr]
    have hpositive : (0 : ℤ) < value digits := by
      have hrange := u.port_range digits hport
      omega
    have hleft : (u.front ++ r).take u.host.length = u.host := by
      rw [Url.front, List.append_assoc, List.take_left]
    have hle : u.host.length ≤ nameEnd (u.front ++ r) := hpos ▸ (leading_of_portLeads hl).le_nameEnd
    rw [Target.readPort, if_pos hl, hnumber, Target.usePort, if_pos hpositive]
    dsimp only
    rw [hpos, erase, Nat.add_sub_cancel' hle, u.nameEnd_port hport, hleft]

def Url.remaining (u : Url) : List ℕ := if u.port = none then u.kept else fromSlash u.kept

/-- parse_host_values, on a URL given by its parts. -/
theorem parse_text (u : Url) : parseHostValuesWorker (fromUrl u.text) =
    ⟨u.host, rooted u.remaining,
      match u.port with
      | none => if u.tls then 443 else 80
      | some digits => value digits, u.tls⟩ := by
  have hstart : parseHostValuesWorker (fromUrl u.text) =
      ((schemeless u.text).readPort atoi).readDir := rfl
  rw [hstart, schemeless_text, u.readPort_front u.kept_opens, Url.remaining]
  cases u.port with
  | none => exact u.readDir_host u.kept_opens _ _
  | some digits =>
    refine u.readDir_host ?_ _ _
    exact (fromSlash_opens u.kept).imp id Or.inl

theorem Url.rooted_rest (u : Url) : rooted u.rest = u.dir := by
  unfold rooted Url.dir
  rcases u.rest_opens with h | h | h | h
  · simp [h]
  all_goals
    obtain ⟨ys, hys⟩ := List.head?_eq_some_iff.mp h
    rw [hys]
    simp [slash, question, HostValues.hash]

theorem rooted_length (xs : List ℕ) :
    xs.length ≤ (rooted xs).length ∧ (rooted xs).length ≤ xs.length + 1 := by
  unfold rooted
  split
  · exact ⟨Nat.le_succ _, le_refl _⟩
  · exact ⟨le_refl _, Nat.le_succ _⟩

theorem Url.remaining_le (u : Url) : u.remaining.length ≤ u.kept.length := by
  unfold Url.remaining
  split
  · exact le_refl _
  · exact (List.drop_sublist _ _).length_le

theorem Url.kept_of_none {u : Url} (hhttp : u.scheme ≠ .http → ¬httpScheme <:+: u.rest)
    (hhttps : u.scheme ≠ .https → ¬httpsScheme <:+: u.rest) :
    u.kept = u.rest ∧ u.tls = (u.scheme = .https : Bool) := by
  have hnot : ∀ {pat}, ¬pat <:+: u.rest → found pat u.rest = false := fun hp =>
    Bool.eq_false_iff.mpr (mt found_iff.mp hp)
  unfold Url.kept Url.tls
  cases hs : u.scheme with
  | absent =>
    have hhttp := hhttp (by rw [hs]; nofun)
    have hhttps := hhttps (by rw [hs]; nofun)
    rw [strip_of_not hhttp, strip_of_not hhttps, hnot hhttps]
    exact ⟨rfl, rfl⟩
  | http =>
    have hhttps := hhttps (by rw [hs]; nofun)
    rw [strip_of_not hhttps, hnot hhttps]
    exact ⟨rfl, rfl⟩
  | https =>
    rw [strip_of_not (hhttp (by rw [hs]; nofun))]
    exact ⟨rfl, rfl⟩

theorem Url.Plain.kept {u : Url} (h : u.Plain) :
    u.kept = u.rest ∧ u.tls = (u.scheme = .https : Bool) := kept_of_none h.noHttp h.noHttps

theorem Url.Plain.remaining {u : Url} (h : u.Plain) : u.remaining = u.rest := by
  unfold Url.remaining
  split
  · exact h.kept.1
  · rename_i hport
    rw [h.kept.1, fromSlash_of_path (h.path hport)]

theorem rooted_path (h : r = [] ∨ r.head? = some slash) : (rooted r).length ≤ max 1 r.length := by
  rcases h with rfl | h
  · exact le_max_left _ _
  · obtain ⟨ys, rfl⟩ := List.head?_eq_some_iff.mp h
    have hrooted : rooted (slash :: ys) = slash :: ys := by
      simp [rooted, slash, question, HostValues.hash]
    rw [hrooted]
    exact le_max_right _ _

theorem Url.path_of_length {u : Url} (hport : u.port ≠ none) (hkept : u.kept = u.rest)
    (hdir : (rooted u.remaining).length = u.dir.length) :
    u.rest = [] ∨ u.rest.head? = some slash := by
  by_contra hnot
  rw [not_or] at hnot
  have hpath := rooted_path (fromSlash_opens u.rest)
  have hle : (fromSlash u.rest).length ≤ u.rest.length := (List.drop_sublist _ _).length_le
  have hpos := List.length_pos_iff.mpr hnot.1
  rw [Url.remaining, if_neg hport, hkept, Url.dir, if_neg hnot.1, if_neg hnot.2,
    List.length_cons] at hdir
  omega

theorem Url.kept_of_length {u : Url} (h : u.rest.length ≤ u.remaining.length + 1) :
    u.scheme ≠ .http → ¬httpScheme <:+: u.rest := by
  intro hs hhttp
  have hlen := strip_length hhttp
  have hseven : httpScheme.length = 7 := rfl
  have hle := u.remaining_le
  unfold Url.kept at hle
  cases hscheme : u.scheme with
  | absent =>
    rw [hscheme] at hle
    have hstrip := strip_le httpsScheme (UrlParts.strip httpScheme u.rest)
    dsimp only at hle
    omega
  | http => exact hs hscheme
  | https =>
    rw [hscheme] at hle
    dsimp only at hle
    omega

/-- parse_host_values takes a URL apart correctly if and only if its rest contains no scheme
that is looked for, and no query or fragment comes right after a port. -/
theorem parse_correct_iff (u : Url) :
    parseHostValuesWorker (fromUrl u.text) = u.target ↔ u.Plain := by
  rw [parse_text, Url.target, Target.mk.injEq, ← u.rooted_rest]
  constructor
  · rintro ⟨-, hdir, -, htls⟩
    have hlong := congrArg List.length hdir
    have hremaining := rooted_length u.remaining
    have hrest := rooted_length u.rest
    have hhttp := u.kept_of_length (by omega)
    have hhttps : u.scheme ≠ .https → ¬httpsScheme <:+: u.rest := by
      intro hs hfound
      have htrue : u.tls = true := by
        unfold Url.tls
        cases hscheme : u.scheme with
        | absent =>
          dsimp only
          rw [strip_of_not (hhttp (by rw [hscheme]; nofun))]
          exact found_iff.mpr hfound
        | http => exact found_iff.mpr hfound
        | https => exact absurd hscheme hs
      rw [htrue] at htls
      exact hs (of_decide_eq_true htls.symm)
    refine ⟨hhttp, hhttps, fun hport => ?_⟩
    exact Url.path_of_length hport (Url.kept_of_none hhttp hhttps).1 (u.rooted_rest ▸ hlong)
  · intro h
    rw [h.remaining, h.kept.2]
    refine ⟨rfl, rfl, ?_, rfl⟩
    unfold Url.portNumber
    cases u.port with
    | none => simp
    | some digits => rfl

def redirecting : Url where
  scheme := .absent
  host := codes "example.com"
  port := none
  rest := codes "/?to=http://example.org"
  host_ne := by decide
  host_plain := by decide
  port_digits := nofun
  port_range := nofun
  rest_opens := by decide

theorem query_scheme_erased :
    ¬∀ u : Url, parseHostValuesWorker (fromUrl u.text) = u.target := by
  intro h
  have hdir := congrArg Target.hostDir (h redirecting)
  exact absurd hdir (by decide)

end UrlParts
