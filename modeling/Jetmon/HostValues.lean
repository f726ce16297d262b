import Jetmon.NumberText

/-! How a URL is taken apart, in the addon of the worker (src/http_checker.cpp) and in the
veriflier (source/http_checker.cpp). The addon has the URL as a std::string of UTF-8, the
veriflier as a QString of UTF-16. The two copies of parse_host_values differ in how the text
of the port becomes a number. -/
namespace HostValues

open TextSearch
open NumberText

/-- The members of HTTP_Checker that parse_host_values reads and writes. -/
structure Target where
  hostName : List ℕ
  hostDir : List ℕ
  port : ℤ
  isSsl : Bool
  deriving DecidableEq, Repr

def codes (s : String) : List ℕ := s.toList.map Char.toNat

def httpScheme : List ℕ := codes "http://"

def httpsScheme : List ℕ := codes "https://"

def slash : ℕ := 47

def question : ℕ := 63

def colon : ℕ := 58

def hash : ℕ := 35

/-- `clear` says whether the TLS flag is reset, as it is in the veriflier. -/
def Target.removeHttp (clear : Bool) (h : Target) : Target :=
  match cut httpScheme h.hostName with
  | none => h
  | some name => { h with hostName := name, isSsl := if clear then false else h.isSsl }

def Target.removeHttps (h : Target) : Target :=
  match cut httpsScheme h.hostName with
  | none => h
  | some name => { h with hostName := name, port := 443, isSsl := true }

def PortLeads (name : List ℕ) : Prop :=
  find [colon] name < find [slash] name ∧ find [colon] name < find [question] name ∧
    find [colon] name < find [hash] name

instance (name : List ℕ) : Decidable (PortLeads name) := by
  unfold PortLeads
  infer_instance

def colonPos (name : List ℕ) : ℕ := (find [colon] name).untopD 0

def nameEnd (name : List ℕ) : ℕ := clip (find [slash] name) name.length

def portText (name : List ℕ) : List ℕ := substr (colonPos name + 1) (nameEnd name) name

def Target.usePort (newPort : ℤ) (h : Target) : Target :=
  if 0 < newPort then
    { h with
      port := newPort
      hostName :=
        erase (colonPos h.hostName) (nameEnd h.hostName - colonPos h.hostName) h.hostName }
  else h

def Target.readPort (toPort : List ℕ → ℤ) (h : Target) : Target :=
  if PortLeads h.hostName then h.usePort (toPort (portText h.hostName)) else h

def dirPos (name : List ℕ) : WithTop ℕ :=
  min (min (find [slash] name) (find [question] name)) (find [hash] name)

def rooted (dir : List ℕ) : List ℕ :=
  if dir.length = 0 ∨ dir.head? = some question ∨ dir.head? = some hash then slash :: dir else dir

def Target.readDir (h : Target) : Target :=
  if dirPos h.hostName ≠ ⊤ then
    let m := (dirPos h.hostName).untopD 0
    { h with
      hostDir := rooted (substr m (h.hostName.length - m) h.hostName)
      hostName := erase m (h.hostName.length - m) h.hostName }
  else h

def parseHostValues (clear : Bool) (toPort : List ℕ → ℤ) (h : Target) : Target :=
  ((h.removeHttp clear).removeHttps.readPort toPort).readDir

def parseHostValuesWorker : Target → Target := parseHostValues false atoi

def parseHostValuesVeriflier : Target → Target := parseHostValues true toInt

/-- The members as check() sets them. The addon's callers pass port 80; it is the default
of the veriflier. -/
def fromUrl (url : List ℕ) : Target := ⟨url, [slash], 80, false⟩

def checkWorker (url : List Char) : Target :=
  parseHostValuesWorker (fromUrl (Encoding.utf8.text (url.map Char.toNat)))

def checkVeriflier (url : List Char) : Target :=
  parseHostValuesVeriflier (fromUrl (Encoding.utf16.text (url.map Char.toNat)))

/-- The two sides have read the same host name, port, TLS flag and path. -/
structure SameReading (worker veriflier : Target) : Prop where
  hostName : ∃ name, worker.hostName = Encoding.utf8.text name ∧
    veriflier.hostName = Encoding.utf16.text name
  hostDir : ∃ dir, worker.hostDir = Encoding.utf8.text dir ∧
    veriflier.hostDir = Encoding.utf16.text dir
  port : worker.port = veriflier.port
  isSsl : worker.isSsl = veriflier.isSsl

def Target.encoded (E : Encoding) (h : Target) : Target :=
  { h with hostName := E.text h.hostName, hostDir := E.text h.hostDir }

/-- A reader of port numbers that does not depend on the encoding and stops at a slash. -/
structure PortReader (toPort : List ℕ → ℤ) : Prop where
  text : ∀ (E : Encoding) (t : List ℕ), toPort (E.text t) = toPort t
  stop : ∀ (E : Encoding) (pre post post' : List ℕ),
    toPort (E.text pre ++ slash :: post) = toPort (pre ++ slash :: post')

theorem slash_stops : Stops slash := by decide

theorem atoi_reader : PortReader atoi where
  text := fun E => atoi_text E
  stop := fun E pre post post' => by
    rw [atoi_stop slash_stops, atoi_stop slash_stops, atoi_text]

theorem toInt_reader : PortReader toInt where
  text := fun E => toInt_text E
  stop := fun E pre post post' => by
    have hmem : ∀ pre post : List ℕ, slash ∈ pre ++ slash :: post :=
      fun pre post => List.mem_append_right pre (List.mem_cons_self ..)
    rw [toInt_of_not (not_isInt_of_mem slash_stops (hmem _ _)),
      toInt_of_not (not_isInt_of_mem slash_stops (hmem _ _))]

variable (E : Encoding) {toPort : List ℕ → ℤ}

theorem removeHttp_encoded (clear : Bool) (h : Target) :
    (h.encoded E).removeHttp clear = (h.removeHttp clear).encoded E := by
  have hcut := E.cut_text (show httpScheme ≠ [] by decide) (by decide) h.hostName
  simp only [Target.removeHttp, Target.encoded, hcut]
  cases cut httpScheme h.hostName <;> rfl

theorem removeHttps_encoded (h : Target) :
    (h.encoded E).removeHttps = h.removeHttps.encoded E := by
  have hcut := E.cut_text (show httpsScheme ≠ [] by decide) (by decide) h.hostName
  simp only [Target.removeHttps, Target.encoded, hcut]
  cases cut httpsScheme h.hostName <;> rfl

/-- A delimiter is found in the encoded name where it is found in the name. -/
theorem find_delimiter {u : ℕ} (hu : u < 128) (t : List ℕ) :
    find [u] (E.text t) = E.pos t (find [u] t) :=
  E.find_text (List.cons_ne_nil u []) (by simpa using hu) t

theorem portLeads_text (t : List ℕ) : PortLeads (E.text t) ↔ PortLeads t := by
  have hin : ∀ u : ℕ, Encoding.Within t (find [u] t) := fun u => Encoding.find_within [u] t
  unfold PortLeads
  rw [find_delimiter E (show colon < 128 by decide), find_delimiter E (show slash < 128 by decide),
    find_delimiter E (show question < 128 by decide), find_delimiter E (show hash < 128 by decide),
    E.pos_lt_iff (hin _) (hin _), E.pos_lt_iff (hin _) (hin _), E.pos_lt_iff (hin _) (hin _)]

theorem colonPos_text (t : List ℕ) : colonPos (E.text t) = E.offset t (colonPos t) := by
  rw [colonPos, find_delimiter E (by decide), E.pos_untopD, colonPos]

theorem nameEnd_text (t : List ℕ) : nameEnd (E.text t) = E.offset t (nameEnd t) := by
  rw [nameEnd, find_delimiter E (by decide), E.clip_pos (Encoding.find_within _ t), nameEnd]

theorem dirPos_text (t : List ℕ) : dirPos (E.text t) = E.pos t (dirPos t) := by
  have hin : ∀ u : ℕ, Encoding.Within t (find [u] t) := fun u => Encoding.find_within [u] t
  have hmin : Encoding.Within t (min (find [slash] t) (find [question] t)) := by
    rcases min_choice (find [slash] t) (find [question] t) with h | h <;> rw [h] <;> apply hin
  simp only [dirPos]
  rw [find_delimiter E (show slash < 128 by decide),
    find_delimiter E (show question < 128 by decide),
    find_delimiter E (show hash < 128 by decide), E.pos_min hmin (hin _), E.pos_min (hin _) (hin _)]

theorem rooted_text (t : List ℕ) : rooted (E.text t) = E.text (rooted t) := by
  have hlen : (E.text t).length = 0 ↔ t.length = 0 := by
    rw [List.length_eq_zero_iff, List.length_eq_zero_iff, E.text_eq_nil]
  simp only [rooted, hlen, head_text E (show question < 128 by decide),
    head_text E (show hash < 128 by decide)]
  split
  · rw [E.text_cons, E.ascii slash (by decide)]
    exact Eq.refl _
  · exact Eq.refl _

theorem dirPos_le (t : List ℕ) : (dirPos t).untopD 0 ≤ t.length := by
  cases hm : dirPos t with
  | top => exact Nat.zero_le _
  | coe m =>
    have hle : ∀ u : ℕ, find [u] t = WithTop.some m → m ≤ t.length := fun u hu => find_le hu
    rcases min_choice (min (find [slash] t) (find [question] t)) (find [hash] t) with h | h
    · rcases min_choice (find [slash] t) (find [question] t) with h' | h'
      · exact hle slash (h'.symm.trans (h.symm.trans hm))
      · exact hle question (h'.symm.trans (h.symm.trans hm))
    · exact hle hash (h.symm.trans hm)

theorem readDir_encoded (h : Target) : (h.encoded E).readDir = h.readDir.encoded E := by
  have hsubstr : ∀ (m : ℕ) (t : List ℕ), substr (E.offset t m) ((E.text t).length - E.offset t m)
      (E.text t) = E.text (substr m (t.length - m) t) := by
    intro m t
    have hall : ∀ (i : ℕ) (xs : List ℕ), substr i (xs.length - i) xs = xs.drop i := by
      intro i xs
      rw [substr, List.take_of_length_le (by rw [List.length_drop])]
    rw [hall, hall, E.drop_offset]
  simp only [Target.readDir, Target.encoded, dirPos_text, ne_eq, E.pos_eq_top, E.pos_untopD]
  split
  · have herase := E.erase_between h.hostName (dirPos_le h.hostName)
    rw [E.offset_length] at herase
    simp only [hsubstr, rooted_text, herase]
  · exact Eq.refl _

theorem take_past {n u : ℕ} {pre : List ℕ} (h : pre.length < n) (post : List ℕ) :
    ∃ post', (pre ++ u :: post).take n = pre ++ u :: post' := by
  refine ⟨post.take (n - pre.length - 1), ?_⟩
  obtain ⟨k, rfl⟩ : ∃ k, n = pre.length + (k + 1) := ⟨n - pre.length - 1, by omega⟩
  rw [List.take_append, List.take_of_length_le (by omega), Nat.add_sub_cancel_left,
    List.take_succ_cons, Nat.add_sub_cancel]

structure Leading (t : List ℕ) (c : ℕ) : Prop where
  found : find [colon] t = WithTop.some c
  before : ∀ j : ℕ, find [slash] t = WithTop.some j → c < j

theorem leading_of_portLeads {t : List ℕ} (h : PortLeads t) : Leading t (colonPos t) := by
  obtain ⟨c, hc⟩ : ∃ c : ℕ, find [colon] t = WithTop.some c := by
    cases hc : find [colon] t with
    | top =>
      have hlt := h.1
      rw [hc] at hlt
      exact absurd hlt not_top_lt
    | coe c => exact ⟨c, rfl⟩
  have hpos : colonPos t = c := by
    rw [colonPos, hc]
    exact WithTop.untopD_coe ..
  refine ⟨hpos ▸ hc, fun j hj => ?_⟩
  have hlt := h.1
  rw [hc, hj] at hlt
  rw [hpos]
  exact WithTop.coe_lt_coe.mp hlt

theorem Leading.drop {t : List ℕ} {c : ℕ} (h : Leading t c) :
    t.drop c = colon :: t.drop (c + 1) := by
  obtain ⟨rest, hrest⟩ := prefix_of_find h.found
  rw [← List.drop_drop, ← hrest]
  rfl

theorem Leading.offset_succ {t : List ℕ} {c : ℕ} (h : Leading t c) :
    E.offset t (c + 1) = E.offset t c + 1 := by
  rw [E.offset_add, h.drop, E.offset_succ, E.ascii colon (by decide)]
  exact Eq.refl _

theorem Leading.le_nameEnd {t : List ℕ} {c : ℕ} (h : Leading t c) : c ≤ nameEnd t := by
  have hc := find_le h.found
  cases hs : find [slash] t with
  | top =>
    rw [nameEnd, hs]
    exact hc
  | coe j =>
    have hj := h.before j hs
    rw [nameEnd, hs]
    exact le_min (Nat.le_of_lt hj) hc

theorem Leading.portText {t : List ℕ} (h : Leading t (colonPos t)) :
    (slash ∉ t ∧ ∀ E : Encoding, portText (E.text t) = E.text (t.drop (colonPos t + 1))) ∨
    ∃ pre post, t.drop (colonPos t + 1) = pre ++ slash :: post ∧
      ∀ E : Encoding, ∃ post', portText (E.text t) = E.text pre ++ slash :: post' := by
  have hsub : ∀ E : Encoding, HostValues.portText (E.text t) =
      (E.text (t.drop (colonPos t + 1))).take (E.offset t (nameEnd t)) := by
    intro E
    rw [HostValues.portText, colonPos_text, nameEnd_text, substr, ← h.offset_succ E, E.drop_offset]
  cases hs : find [slash] t with
  | top =>
    refine Or.inl ⟨find_single_top.mp hs, fun E => ?_⟩
    have hend : nameEnd t = t.length := by
      rw [nameEnd, hs]
      exact Eq.refl _
    rw [hsub, hend, E.offset_length, List.take_of_length_le]
    rw [E.text_take_drop t (colonPos t + 1), List.length_append]
    exact Nat.le_add_left _ _
  | coe j =>
    have hcj := h.before j hs
    obtain ⟨post, hpost⟩ := prefix_of_find hs
    have hend : nameEnd t = j := by
      rw [nameEnd, hs]
      exact min_eq_left (find_le hs)
    obtain ⟨pre, hpre⟩ : ∃ pre, pre = (t.drop (colonPos t + 1)).take (j - (colonPos t + 1)) :=
      ⟨_, rfl⟩
    have hrest : t.drop (colonPos t + 1) = pre ++ slash :: post := by
      have hdrop : (t.drop (colonPos t + 1)).drop (j - (colonPos t + 1)) = slash :: post := by
        rw [List.drop_drop, Nat.add_sub_cancel' hcj, ← hpost]
        exact Eq.refl _
      rw [hpre, ← hdrop, List.take_append_drop]
    refine Or.inr ⟨pre, post, hrest, fun E => ?_⟩
    -- more units are read than there are in front of the slash
    have hlen : (E.text pre).length < E.offset t j := by
      have hsplit := E.offset_add t (colonPos t + 1) (j - (colonPos t + 1))
      rw [Nat.add_sub_cancel' hcj, h.offset_succ E] at hsplit
      rw [hsplit, hpre, Encoding.offset, Encoding.offset]
      omega
    obtain ⟨post', hpost'⟩ := take_past (u := slash) hlen (E.text post)
    refine ⟨post', ?_⟩
    rw [hsub, hend, hrest, E.text_append, E.text_cons, E.ascii slash (by decide), ← hpost']
    exact Eq.refl _

theorem portText_reader (hr : PortReader toPort) {t : List ℕ} (hl : PortLeads t) :
    toPort (portText (E.text t)) = toPort (portText t) := by
  have hpoints : portText t = portText (Encoding.points.text t) := by rw [Encoding.points_text]
  rcases (leading_of_portLeads hl).portText with ⟨_, h⟩ | ⟨pre, _, _, h⟩
  · rw [hpoints, h, h, hr.text, hr.text]
  · obtain ⟨post, he⟩ := h E
    obtain ⟨post', hp⟩ := h Encoding.points
    rw [hpoints, he, hp, hr.stop E pre post post', Encoding.points_text]

theorem usePort_encoded (newPort : ℤ) {h : Target} (hl : PortLeads h.hostName) :
    (h.encoded E).usePort newPort = (h.usePort newPort).encoded E := by
  have herase := E.erase_between h.hostName (leading_of_portLeads hl).le_nameEnd
  simp only [Target.usePort, Target.encoded, colonPos_text, nameEnd_text, herase]
  split <;> exact Eq.refl _

theorem readPort_encoded (hr : PortReader toPort) (h : Target) :
    (h.encoded E).readPort toPort = (h.readPort toPort).encoded E := by
  by_cases hl : PortLeads h.hostName
  · have hl' : PortLeads (h.encoded E).hostName := (portLeads_text E h.hostName).mpr hl
    rw [Target.readPort, if_pos hl', Target.readPort, if_pos hl, usePort_encoded E _ hl]
    exact congrArg (fun n => (h.usePort n).encoded E) (portText_reader E hr hl)
  · have hl' : ¬PortLeads (h.encoded E).hostName := mt (portLeads_text E h.hostName).mp hl
    rw [Target.readPort, if_neg hl', Target.readPort, if_neg hl]

/-- The parser sees the text, not its encoding. -/
theorem parseHostValues_encoded (hr : PortReader toPort) (clear : Bool) (h : Target) :
    parseHostValues clear toPort (h.encoded E) = (parseHostValues clear toPort h).encoded E := by
  simp only [parseHostValues, removeHttp_encoded, removeHttps_encoded, readPort_encoded E hr,
    readDir_encoded]

def schemeless (t : List ℕ) : Target := ((fromUrl t).removeHttp false).removeHttps

def afterColon (name : List ℕ) : List ℕ := name.drop (colonPos name + 1)

/-- Either no port is written in front of the path, or what follows its colon begins with no
positive number, or it is a number of 32 bits up to the end of the URL. -/
def PortAgrees (url : List Char) : Prop :=
  let name := (schemeless (url.map Char.toNat)).hostName
  PortLeads name → 0 < atoi (afterColon name) → IsInt (afterColon name)

instance (url : List Char) : Decidable (PortAgrees url) := by
  unfold PortAgrees
  infer_instance

theorem fromUrl_text (t : List ℕ) : fromUrl (E.text t) = (fromUrl t).encoded E := by
  have hslash : E.text [slash] = [slash] := E.text_ascii (by decide)
  simp only [Target.encoded, fromUrl, hslash]

theorem removeHttp_fromUrl (clear : Bool) (t : List ℕ) :
    (fromUrl t).removeHttp clear = (fromUrl t).removeHttp false := by
  simp only [Target.removeHttp]
  cases cut httpScheme (fromUrl t).hostName with
  | none => rfl
  | some name => cases clear <;> rfl

theorem checkWorker_eq (url : List Char) : checkWorker url =
    (((schemeless (url.map Char.toNat)).readPort atoi).readDir).encoded Encoding.utf8 := by
  rw [checkWorker, fromUrl_text, parseHostValuesWorker,
    parseHostValues_encoded Encoding.utf8 atoi_reader]
  exact Eq.refl _

theorem checkVeriflier_eq (url : List Char) : checkVeriflier url =
    (((schemeless (url.map Char.toNat)).readPort toInt).readDir).encoded Encoding.utf16 := by
  rw [checkVeriflier, fromUrl_text, parseHostValuesVeriflier,
    parseHostValues_encoded Encoding.utf16 toInt_reader, parseHostValues, removeHttp_fromUrl]
  exact Eq.refl _

theorem portText_values {name : List ℕ} (hl : PortLeads name) :
    atoi (portText name) = atoi (afterColon name) ∧
      (IsInt (portText name) ↔ IsInt (afterColon name)) := by
  have hpoints : portText name = portText (Encoding.points.text name) := by
    rw [Encoding.points_text]
  rw [hpoints, afterColon]
  rcases (leading_of_portLeads hl).portText with ⟨_, h⟩ | ⟨pre, post, hrest, h⟩
  · rw [h, Encoding.points_text]
    exact ⟨rfl, Iff.rfl⟩
  · obtain ⟨post', hp⟩ := h Encoding.points
    have hmem : ∀ post : List ℕ, slash ∈ pre ++ slash :: post :=
      fun post => List.mem_append_right pre (List.mem_cons_self ..)
    rw [hp, hrest, Encoding.points_text, atoi_stop slash_stops, atoi_stop slash_stops]
    exact ⟨rfl, iff_of_false (not_isInt_of_mem slash_stops (hmem _))
      (not_isInt_of_mem slash_stops (hmem _))⟩

theorem usePort_of_le {newPort : ℤ} (hn : newPort ≤ 0) (h : Target) : h.usePort newPort = h :=
  if_neg (not_lt.mpr hn)

theorem readPort_same {h : Target} (hc : PortLeads h.hostName →
    0 < atoi (afterColon h.hostName) → IsInt (afterColon h.hostName)) :
    h.readPort atoi = h.readPort toInt := by
  by_cases hl : PortLeads h.hostName
  · rw [Target.readPort, if_pos hl, Target.readPort, if_pos hl]
    obtain ⟨hatoi, hint⟩ := portText_values hl
    by_cases hi : IsInt (portText h.hostName)
    · rw [toInt_of_isInt hi]
    · have hle : atoi (portText h.hostName) ≤ 0 := by
        by_contra hpos
        rw [not_le, hatoi] at hpos
        exact hi (hint.mpr (hc hl hpos))
      rw [toInt_of_not hi, usePort_of_le hle, usePort_of_le (le_refl 0)]
  · rw [Target.readPort, if_neg hl, Target.readPort, if_neg hl]

theorem readDir_hostName (h : Target) :
    h.readDir.hostName = h.hostName.take (clip (dirPos h.hostName) h.hostName.length) := by
  have hle := dirPos_le h.hostName
  cases hm : dirPos h.hostName with
  | top =>
    rw [Target.readDir, if_neg (by simp [hm])]
    exact (List.take_length).symm
  | coe m =>
    rw [hm] at hle
    have hle : m ≤ h.hostName.length := hle
    have hm' : (dirPos h.hostName).untopD 0 = m := by rw [hm]; rfl
    rw [Target.readDir, if_pos (by simp [hm])]
    simp only [hm', erase, Nat.add_sub_cancel' hle, List.drop_length, List.append_nil]
    exact congrArg h.hostName.take (min_eq_left hle).symm

theorem Leading.colon_mem {t : List ℕ} {c n : ℕ} (h : Leading t c) (hn : c < n) :
    colon ∈ t.take n := by
  have hc := find_le h.found
  have hlen : (t.take c).length < n := by
    rw [List.length_take]
    omega
  obtain ⟨post', hpost⟩ := take_past (u := colon) hlen (t.drop (c + 1))
  rw [← h.drop, List.take_append_drop] at hpost
  rw [hpost]
  exact List.mem_append_right _ (List.mem_cons_self ..)

theorem colon_kept {h : Target} (hl : PortLeads h.hostName) : colon ∈ h.readDir.hostName := by
  have hlead := leading_of_portLeads hl
  rw [readDir_hostName]
  apply hlead.colon_mem
  have hlt : find [colon] h.hostName < dirPos h.hostName := lt_min (lt_min hl.1 hl.2.1) hl.2.2
  rw [hlead.found] at hlt
  cases hm : dirPos h.hostName with
  | top =>
    have hdrop := congrArg List.length hlead.drop
    rw [List.length_drop, List.length_cons] at hdrop
    change colonPos h.hostName < h.hostName.length
    omega
  | coe m =>
    rw [hm] at hlt
    have hle := dirPos_le h.hostName
    rw [hm] at hle
    exact lt_min (WithTop.coe_lt_coe.mp hlt) (lt_of_lt_of_le (WithTop.coe_lt_coe.mp hlt) hle)

theorem colon_cut {h : Target} (hl : PortLeads h.hostName) {newPort : ℤ} (hn : 0 < newPort) :
    colon ∉ (h.usePort newPort).readDir.hostName := by
  have hlead := leading_of_portLeads hl
  obtain ⟨c, hc⟩ : ∃ c, c = colonPos h.hostName := ⟨_, rfl⟩
  rw [← hc] at hlead
  have hno : colon ∉ h.hostName.take c := not_mem_take (le_of_eq hlead.found.symm)
  have hname : (h.usePort newPort).hostName =
      h.hostName.take c ++ h.hostName.drop (nameEnd h.hostName) := by
    rw [Target.usePort, if_pos hn, ← hc]
    exact congrArg (fun k => h.hostName.take c ++ h.hostName.drop k)
      (Nat.add_sub_cancel' hlead.le_nameEnd)
  rw [readDir_hostName, hname]
  cases hs : find [slash] h.hostName with
  | top =>
    have hend : nameEnd h.hostName = h.hostName.length := by
      rw [nameEnd, hs]
      exact Eq.refl _
    rw [hend, List.drop_length, List.append_nil]
    exact fun hm => hno (List.mem_of_mem_take hm)
  | coe j =>
    obtain ⟨post, hpost⟩ := prefix_of_find hs
    have hend : nameEnd h.hostName = j := by
      rw [nameEnd, hs]
      exact min_eq_left (find_le hs)
    have hnoslash : slash ∉ h.hostName.take c := by
      apply not_mem_take
      rw [hs]
      exact WithTop.coe_le_coe.mpr (Nat.le_of_lt (hlead.before j hs))
    rw [hend, ← hpost, List.singleton_append]
    generalize h.hostName.take c = pre at hno hnoslash
    -- the name ends at the slash, which now stands where the colon was
    have hdir : dirPos (pre ++ slash :: post) ≤ (pre.length : WithTop ℕ) := by
      have hfind : find [slash] (pre ++ slash :: post) = pre.length := by
        rw [find_skip hnoslash, find_at_start (List.cons_prefix_cons.mpr ⟨rfl, List.nil_prefix⟩),
          zero_add]
      exact (min_le_left _ _).trans ((min_le_left _ _).trans (le_of_eq hfind))
    cases hm : dirPos (pre ++ slash :: post) with
    | top =>
      rw [hm] at hdir
      exact absurd (top_le_iff.mp hdir) WithTop.coe_ne_top
    | coe m =>
      rw [hm] at hdir
      have hle : clip (WithTop.some m) (pre ++ slash :: post).length ≤ pre.length :=
        (min_le_left _ _).trans (WithTop.coe_le_coe.mp hdir)
      rw [List.take_append_of_le_length hle]
      exact fun hmem => hno (List.mem_of_mem_take hmem)

/-- The two sides read the same host, port, TLS flag and path exactly where they agree on the
port. -/
theorem same_reading_iff (url : List Char) :
    SameReading (checkWorker url) (checkVeriflier url) ↔ PortAgrees url := by
  rw [checkWorker_eq, checkVeriflier_eq]
  obtain ⟨h, hh⟩ : ∃ h, h = schemeless (url.map Char.toNat) := ⟨_, rfl⟩
  have hagrees : PortAgrees url ↔ (PortLeads h.hostName → 0 < atoi (afterColon h.hostName) →
      IsInt (afterColon h.hostName)) := by rw [hh]; exact Iff.rfl
  rw [← hh, hagrees]
  constructor
  · intro hsame hl hpos
    by_contra hint
    obtain ⟨hatoi, hiff⟩ := portText_values hl
    rw [← hatoi] at hpos
    obtain ⟨name, hw, hv⟩ := hsame.hostName
    -- only the veriflier's name has a colon
    have hno := colon_cut hl hpos
    have hyes := colon_kept hl
    have hworker : colon ∉ Encoding.utf8.text name := by
      rw [← hw, Target.readPort, if_pos hl]
      exact mt (Encoding.utf8.mem_text (by decide)).mp hno
    have hveriflier : colon ∈ Encoding.utf16.text name := by
      rw [← hv, Target.readPort, if_pos hl, toInt_of_not (mt hiff.mp hint),
        usePort_of_le (le_refl 0)]
      exact (Encoding.utf16.mem_text (by decide)).mpr hyes
    rw [Encoding.mem_text _ (by decide)] at hworker hveriflier
    exact hworker hveriflier
  · intro hc
    rw [readPort_same hc]
    exact ⟨⟨_, rfl, rfl⟩, ⟨_, rfl, rfl⟩, rfl, rfl⟩

/-- The text behind the colon is "8080/", which only the addon takes for a number. -/
theorem port_before_path_differs :
    ¬∀ url : List Char, SameReading (checkWorker url) (checkVeriflier url) := by
  intro h
  have hport := (h "http://example.com:8080/".toList).port
  exact absurd hport (by decide)

end HostValues
