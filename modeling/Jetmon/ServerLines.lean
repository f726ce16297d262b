import Jetmon.DbPools

/-! The servers of a configuration file and the nodes that configuration.load, lib/dbpools.js,
makes of them. -/
namespace ServerLines

open DbConfigFile

/-- What follows `array(` in a line for a server, in the order of the line. -/
structure Server where
  datacenter : Text
  readSlave : Text
  writeMaster : Text
  internetUri : Text
  internalUri : Text
  dbName : Text
  dbUser : Text
  dbPassword : Text
  x : Text
  y : Text
  z : Text
  deriving DecidableEq, Repr

def quoted (field : Text) : Text := quote :: field ++ [quote]

def isKept (c : Char) : Bool := c ≠ quote && c ≠ doubleQuote && c ≠ ' '

namespace Server

def fields (s : Server) : List Text :=
  [s.datacenter, s.readSlave, s.writeMaster, s.internetUri, s.internalUri, s.dbName, s.dbUser,
    s.dbPassword, s.x, s.y, s.z]

def written (s : Server) : List Text :=
  [quoted s.datacenter, s.readSlave, s.writeMaster, quoted s.internetUri, quoted s.internalUri,
    quoted s.dbName, quoted s.dbUser, quoted s.dbPassword, s.x, s.y, s.z]

def body (s : Server) : Text := [',', ' '].intercalate s.written ++ [' ']

def Plain (s : Server) : Prop := ∀ field ∈ s.fields, ',' ∉ field ∧ ∀ c ∈ field, isKept c = true

theorem plain_iff (s : Server) :
    (s.fields.all fun field => !field.contains ',' && field.all isKept) = true ↔ s.Plain := by
  simp [Plain]

instance (s : Server) : Decidable s.Plain := decidable_of_iff _ s.plain_iff

end Server

structure ServerLine where
  indent : Text
  server : Server
  rest : Text
  indent_space : ∀ c ∈ indent, isSpace c = true
  plain : server.Plain
  closed : ')' ∉ rest

def ServerLine.text (l : ServerLine) : Text :=
  l.indent ++ "array( ".toList ++ l.server.body ++ ')' :: l.rest

structure DatasetLine where
  blank : Char
  name : Text
  left : Text
  right : Text
  rest : Text
  blank_space : isSpace blank = true
  name_ne : name ≠ []
  name_chars : ∀ c ∈ name, isNameChar c = true
  left_space : ∀ c ∈ left, isSpace c = true
  right_space : ∀ c ∈ right, isSpace c = true

def DatasetLine.text (l : DatasetLine) : Text :=
  l.blank :: quote :: l.name ++ quote :: l.left ++ "=>".toList ++ l.right ++ "array(".toList ++
    l.rest

structure OtherLine where
  text : Text
  no_name : datasetName text = none
  no_server : isServer text = false

inductive Line where
  | dataset (l : DatasetLine)
  | server (l : ServerLine)
  | other (l : OtherLine)

def Line.text : Line → Text
  | .dataset l => l.text
  | .server l => l.text
  | .other l => l.text

structure File where
  lines : List Line
  single : ∀ l ∈ lines, '\n' ∉ l.text

def File.text (f : File) : Text := ['\n'].intercalate (f.lines.map Line.text)

def misc (inside : Bool) : List Line → List Server
  | [] => []
  | .dataset l :: lines => misc (l.name = "misc".toList) lines
  | .server l :: lines => if inside then l.server :: misc inside lines else misc inside lines
  | .other _ :: lines => misc inside lines

def File.servers (f : File) : List Server := misc false f.lines

inductive Kind where
  | master
  | slave
  | failover
  | backup
  deriving DecidableEq, Repr

def Server.config (s : Server) : DbConfig where
  host := setting 0 (s.internetUri.splitOn ':')
  port := (s.internetUri.splitOn ':')[1]?
  user := s.dbUser
  password := s.dbPassword
  database := s.dbName
  connectionLimit := 5
  supportBigNumbers := true
  multipleStatements := false

section Numbering

variable (kind : Server → Kind)

def number (k : Kind) (earlier : List Server) : ℕ := 1 + earlier.countP fun s => kind s = k

/-- The node for a server, if it gets one. -/
def node (earlier : List Server) (s : Server) : Option Node :=
  match kind s with
  | .master => some ⟨"MISC_MASTER", { s.config with multipleStatements := true }⟩
  | .slave => some ⟨"MISC_SLAVE" ++ toString (number kind .slave earlier), s.config⟩
  | .failover => some ⟨"MISC_FAILOVER" ++ toString (number kind .failover earlier), s.config⟩
  | .backup => none

def nodes (earlier : List Server) : List Server → List Node
  | [] => []
  | s :: later => (node kind earlier s).toList ++ nodes (earlier ++ [s]) later

end Numbering

-- `isOne text` is the comparison `1 == text`
variable (isOne : Text → Bool) (hostname : Text)

/-- The label of a host name that stands for its data centre. -/
def installedDC (hostname : Text) : Text := (hostname.splitOn '.').reverse[2]?.getD []

def kind (s : Server) : Kind :=
  if isOne s.writeMaster then .master
  else if installedDC hostname <:+: s.datacenter then .slave
  else if s.datacenter = "bak".toList then .backup
  else .failover

/-- What a server is taken for. -/
def loadedKind (s : Server) : Kind :=
  match kind isOne hostname s with
  | .backup => .failover
  | k => k

def File.nodes (f : File) : List Node := ServerLines.nodes (kind isOne hostname) [] f.servers

/-- Loading the file adds these nodes and no others, in this order. -/
def Registers (f : File) : Prop := (load isOne hostname f.text).nodes = f.nodes isOne hostname

theorem filter_intercalate {α : Type*} (p : α → Bool) (sep : List α) (parts : List (List α)) :
    (sep.intercalate parts).filter p = (sep.filter p).intercalate (parts.map (List.filter p)) := by
  induction parts with
  | nil => rfl
  | cons part parts ih =>
    cases parts with
    | nil => simp
    | cons next parts =>
      rw [List.intercalate_cons_cons, List.filter_append, List.filter_append, ih]
      simp only [List.map_cons]
      rw [List.intercalate_cons_cons]

theorem filter_quoted (field : Text) : (quoted field).filter isKept = field.filter isKept := by
  simp [quoted, isKept]

namespace Server

variable {s : Server}

theorem filter_written (h : s.Plain) : s.written.map (List.filter isKept) = s.fields := by
  have hkept : ∀ field ∈ s.fields, field.filter isKept = field :=
    fun field hfield => List.filter_eq_self.mpr (h field hfield).2
  have hmap : s.written.map (List.filter isKept) = s.fields.map (List.filter isKept) := by
    simp only [written, fields, List.map_cons, filter_quoted, List.map_nil]
  rw [hmap, List.map_congr_left hkept, List.map_id']

theorem splitOn_body (h : s.Plain) : (s.body.filter isKept).splitOn ',' = s.fields := by
  have hseparator : List.filter isKept [',', ' '] = [','] := by decide
  have hblank : List.filter isKept [' '] = [] := by decide
  rw [body, List.filter_append, hblank, List.append_nil, filter_intercalate, hseparator,
    filter_written h]
  exact List.splitOn_intercalate ',' (fun field hfield => (h field hfield).1) (List.cons_ne_nil _ _)

theorem head?_body : s.body.head? = some quote := by
  simp [body, written, quoted, List.intercalate_cons_cons]

end Server

theorem quote_not_mem {indent : Text} (h : ∀ c ∈ indent, isSpace c = true) : quote ∉ indent :=
  fun hquote => absurd (h quote hquote) (by decide)

theorem arrSettings_server (l : ServerLine) : arrSettings l.text = l.server.fields := by
  have hfront : quote ∉ l.indent ++ "array( ".toList := by
    rw [List.mem_append, not_or]
    exact ⟨quote_not_mem l.indent_space, by decide⟩
  rw [ServerLine.text, arrSettings_append hfront Server.head?_body l.closed]
  exact Server.splitOn_body l.plain

theorem isServer_server (l : ServerLine) : isServer l.text = true := by
  have hspace : isSpace 'a' = false := by decide
  rw [isServer, ServerLine.text, List.append_assoc, List.append_assoc,
    List.dropWhile_append_of_pos l.indent_space]
  simp [hspace]

theorem datasetName_server (l : ServerLine) : datasetName l.text = none := by
  have hspace : isSpace 'a' = false := by decide
  apply datasetName_none
  cases hindent : l.indent with
  | nil => simp [ServerLine.text, hindent, hspace]
  | cons blank indent =>
    have hquote : quote ∉ indent :=
      quote_not_mem fun c hc => l.indent_space c (hindent ▸ List.mem_cons_of_mem blank hc)
    have hsecond : ((blank :: indent ++ "array( ".toList ++ l.server.body ++
        ')' :: l.rest).drop 1).head? ≠ some quote := by
      cases indent with
      | nil => simp [quote]
      | cons c indent =>
        have hc : c ≠ quote := fun heq => hquote (heq ▸ List.mem_cons_self)
        simpa using hc
    rw [ServerLine.text, hindent, beq_eq_false_iff_ne.mpr hsecond, Bool.and_false]

theorem isServer_dataset (l : DatasetLine) : isServer l.text = false := by
  have hquote : ¬isSpace quote = true := by decide
  have hdrop (rest : Text) : (l.blank :: quote :: rest).dropWhile isSpace = quote :: rest := by
    rw [List.dropWhile_cons_of_pos l.blank_space, List.dropWhile_cons_of_neg hquote]
  simp only [isServer, DatasetLine.text, List.cons_append, hdrop]
  rfl

theorem opensDataset_arrow {left right : Text} (hleft : ∀ c ∈ left, isSpace c = true)
    (hright : ∀ c ∈ right, isSpace c = true) (rest : Text) :
    opensDataset (quote :: left ++ "=>".toList ++ right ++ "array(".toList ++ rest) = true := by
  have harrow : isSpace '=' = false := by decide
  have hspace : isSpace 'a' = false := by decide
  have hserver : isServer (right ++ "array(".toList ++ rest) = true := by
    rw [isServer, List.append_assoc, List.dropWhile_append_of_pos hright]
    simp [hspace]
  have htail : (left ++ ("=>".toList ++ (right ++ "array(".toList ++ rest))).dropWhile isSpace =
      "=>".toList ++ (right ++ "array(".toList ++ rest) := by
    rw [List.dropWhile_append_of_pos hleft]
    simp [harrow]
  have hassoc : quote :: left ++ "=>".toList ++ right ++ "array(".toList ++ rest =
      quote :: (left ++ ("=>".toList ++ (right ++ "array(".toList ++ rest))) := by simp
  rw [hassoc]
  simp only [opensDataset, List.tail_cons, htail]
  simpa using hserver

theorem datasetName_dataset (l : DatasetLine) : datasetName l.text = some l.name := by
  have hassoc : l.text = l.blank :: quote :: l.name ++
      (quote :: l.left ++ "=>".toList ++ l.right ++ "array(".toList ++ l.rest) := by
    simp [DatasetLine.text]
  rw [hassoc]
  exact datasetName_append l.blank_space l.name_ne l.name_chars
    (opensDataset_arrow l.left_space l.right_space l.rest)

variable {isOne hostname} {s : Server} {earlier : List Server} {p : Load}

theorem installedDC_eq (h : 4 ≤ (hostname.splitOn '.').length) :
    setting ((hostname.splitOn '.').length - 3) (hostname.splitOn '.') = installedDC hostname := by
  have hthird : 2 < (hostname.splitOn '.').length := by omega
  rw [installedDC, setting, List.getElem?_reverse hthird]
  rfl

theorem loadedKind_eq (isOne : Text → Bool) (hostname : Text) (s : Server) :
    loadedKind isOne hostname s =
      if isOne s.writeMaster then .master
      else if installedDC hostname <:+: s.datacenter then .slave
      else .failover := by
  unfold loadedKind kind
  split_ifs <;> rfl

/-- The quotes that are searched for have been removed. -/
theorem find_bak (h : s.Plain) :
    TextSearch.find ([quote] ++ "bak".toList ++ [quote]) s.datacenter = ⊤ := by
  refine TextSearch.find_eq_top.mpr fun hbak => ?_
  have hquote : quote ∈ s.datacenter := hbak.subset List.mem_cons_self
  exact absurd ((h s.datacenter List.mem_cons_self).2 quote hquote) (by decide)

theorem number_append (f : Server → Kind) (k : Kind) :
    number f k (earlier ++ [s]) = number f k earlier + if f s = k then 1 else 0 := by
  rw [number, number, List.countP_append, List.countP_singleton]
  split <;> simp_all [Nat.add_assoc]

structure Counted (isOne : Text → Bool) (hostname : Text) (earlier : List Server) (p : Load) :
    Prop where
  slaves : p.slaveUniqueCount = number (loadedKind isOne hostname) .slave earlier
  backups : p.backupUniqueCount = number (loadedKind isOne hostname) .failover earlier
  running : p.failed = false

theorem Counted.step {p' : Load} (h : Counted isOne hostname earlier p)
    (hslaves : p'.slaveUniqueCount =
      p.slaveUniqueCount + if loadedKind isOne hostname s = .slave then 1 else 0)
    (hbackups : p'.backupUniqueCount =
      p.backupUniqueCount + if loadedKind isOne hostname s = .failover then 1 else 0)
    (hfailed : p'.failed = p.failed) : Counted isOne hostname (earlier ++ [s]) p' where
  slaves := by rw [hslaves, h.slaves, number_append]
  backups := by rw [hbackups, h.backups, number_append]
  running := hfailed.trans h.running

structure Added (isOne : Text → Bool) (hostname : Text) (earlier : List Server) (s : Server)
    (p p' : Load) : Prop where
  counted : Counted isOne hostname (earlier ++ [s]) p'
  nodes : p'.nodes = p.nodes ++ (node (loadedKind isOne hostname) earlier s).toList
  dataset : p'.currentDataset = p.currentDataset

theorem addServer_added (hlabels : 4 ≤ (hostname.splitOn '.').length) (hplain : s.Plain)
    (h : Counted isOne hostname earlier p) :
    Added isOne hostname earlier s p (addServer isOne hostname s.fields p) := by
  have hdc : setting datacenter s.fields = s.datacenter := rfl
  have hwrite : setting writeMaster s.fields = s.writeMaster := rfl
  have hconfig : dbConfig s.fields = s.config := rfl
  have hkind := loadedKind_eq isOne hostname s
  simp only [addServer, hdc, hwrite, hconfig, installedDC_eq hlabels, find_bak hplain,
    if_neg (Nat.not_lt.mpr hlabels)]
  by_cases hmaster : isOne s.writeMaster = true
  · rw [if_pos hmaster] at hkind ⊢
    refine ⟨h.step ?_ ?_ rfl, ?_, rfl⟩
    · rw [hkind]
      rfl
    · rw [hkind]
      rfl
    · rw [node, hkind]
      rfl
  rw [if_neg hmaster] at hkind ⊢
  by_cases hlocal : installedDC hostname <:+: s.datacenter
  · rw [if_pos hlocal] at hkind
    rw [if_pos (mt TextSearch.find_eq_top.mp (not_not.mpr hlocal))]
    refine ⟨h.step ?_ ?_ rfl, ?_, rfl⟩
    · rw [hkind]
      rfl
    · rw [hkind]
      rfl
    · rw [node, hkind, ← h.slaves]
      rfl
  · rw [if_neg hlocal] at hkind
    rw [if_neg (not_not.mpr (TextSearch.find_eq_top.mpr hlocal)), if_pos trivial]
    refine ⟨h.step ?_ ?_ rfl, ?_, rfl⟩
    · rw [hkind]
      rfl
    · rw [hkind]
      rfl
    · rw [node, hkind, ← h.backups]
      rfl

theorem loadLine_running (h : p.failed = false) (line : Text) :
    loadLine isOne hostname p line =
      let p := { p with currentDataset := (datasetName line).or p.currentDataset }
      if p.currentDataset ≠ some "misc".toList then p
      else if !isServer line then p
      else if (arrSettings line).length ≠ 11 then p
      else addServer isOne hostname (arrSettings line) p := by
  unfold loadLine
  rw [h]
  rfl

theorem loadLine_dataset (h : p.failed = false) (l : DatasetLine) :
    loadLine isOne hostname p l.text = { p with currentDataset := some l.name } := by
  rw [loadLine_running h]
  simp [datasetName_dataset, isServer_dataset]

theorem loadLine_other (h : p.failed = false) (l : OtherLine) :
    loadLine isOne hostname p l.text = p := by
  rw [loadLine_running h]
  simp [l.no_name, l.no_server]

theorem loadLine_server (h : p.failed = false) (l : ServerLine) :
    loadLine isOne hostname p l.text =
      if p.currentDataset = some "misc".toList then addServer isOne hostname l.server.fields p
      else p := by
  have hlength : l.server.fields.length = 11 := rfl
  rw [loadLine_running h]
  simp only [datasetName_server, Option.none_or, isServer_server, arrSettings_server, hlength]
  by_cases hmisc : p.currentDataset = some "misc".toList
  · rw [if_neg (not_not.mpr hmisc), if_pos hmisc]
    rfl
  · rw [if_pos hmisc, if_neg hmisc]

theorem loadLines_nodes (hlabels : 4 ≤ (hostname.splitOn '.').length) (lines : List Line)
    (h : Counted isOne hostname earlier p) :
    ((lines.map Line.text).foldl (loadLine isOne hostname) p).nodes =
      p.nodes ++ nodes (loadedKind isOne hostname) earlier
        (misc (p.currentDataset = some "misc".toList) lines) := by
  induction lines generalizing p earlier with
  | nil => simp [misc, nodes]
  | cons line lines ih =>
    rw [List.map_cons, List.foldl_cons]
    cases line with
    | dataset l =>
      rw [Line.text, loadLine_dataset h.running,
        ih (p := { p with currentDataset := some l.name }) ⟨h.slaves, h.backups, h.running⟩, misc]
      simp
    | other l => rw [Line.text, loadLine_other h.running, ih h, misc]
    | server l =>
      rw [Line.text, loadLine_server h.running, misc]
      by_cases hmisc : p.currentDataset = some "misc".toList
      · have hadded := addServer_added hlabels l.plain h
        rw [if_pos hmisc, if_pos (by simpa using hmisc), ih hadded.counted, hadded.nodes,
          hadded.dataset, List.append_assoc]
        rfl
      · rw [if_neg hmisc, if_neg (by simpa using hmisc)]
        exact ih h

theorem load_nodes (hlabels : 4 ≤ (hostname.splitOn '.').length) (f : File) :
    (load isOne hostname f.text).nodes = nodes (loadedKind isOne hostname) [] f.servers := by
  have hstart : Counted isOne hostname [] ⟨none, 1, 1, [], false⟩ := ⟨rfl, rfl, rfl⟩
  rw [load, File.text, File.servers]
  by_cases hlines : f.lines = []
  · rw [hlines]
    rfl
  · have hne : f.lines.map Line.text ≠ [] := mt List.map_eq_nil_iff.mp hlines
    have hsingle : ∀ text ∈ f.lines.map Line.text, '\n' ∉ text := by
      simpa using f.single
    rw [List.splitOn_intercalate '\n' hsingle hne, loadLines_nodes hlabels f.lines hstart]
    rfl

theorem nodes_congr {f g : Server → Kind} {later : List Server}
    (h : ∀ s ∈ earlier ++ later, f s = g s) : nodes f earlier later = nodes g earlier later := by
  induction later generalizing earlier with
  | nil => rfl
  | cons s later ih =>
    have hcount (k : Kind) : number f k earlier = number g k earlier := by
      rw [number, number, List.countP_congr]
      intro t ht
      rw [h t (List.mem_append_left _ ht)]
    have hs : f s = g s := h s (List.mem_append_right _ List.mem_cons_self)
    rw [nodes, nodes, node, node, hs, hcount, hcount, ih (by simpa using h)]

theorem length_nodes (f : Server → Kind) (earlier later : List Server) :
    (nodes f earlier later).length = later.countP fun s => f s ≠ .backup := by
  induction later generalizing earlier with
  | nil => rfl
  | cons s later ih =>
    rw [nodes, List.length_append, ih, List.countP_cons, Nat.add_comm, node]
    cases f s <;> rfl

theorem loadedKind_ne (s : Server) : loadedKind isOne hostname s ≠ .backup := by
  unfold loadedKind
  cases kind isOne hostname s <;> decide

theorem loadedKind_of_ne (h : kind isOne hostname s ≠ .backup) :
    loadedKind isOne hostname s = kind isOne hostname s := by
  unfold loadedKind
  cases hkind : kind isOne hostname s with
  | backup => exact absurd hkind h
  | master => rfl
  | slave => rfl
  | failover => rfl

/-- A file is loaded as it is meant to be exactly if it lists no backup server. -/
theorem registers_iff_no_backup (isOne : Text → Bool) (hostname : Text) (f : File)
    (hlabels : 4 ≤ (hostname.splitOn '.').length) :
    Registers isOne hostname f ↔ ∀ s ∈ f.servers, kind isOne hostname s ≠ .backup := by
  rw [Registers, load_nodes hlabels, File.nodes]
  constructor
  · intro heq
    have hlength := congrArg List.length heq
    have hall : f.servers.countP (fun s => loadedKind isOne hostname s ≠ .backup) =
        f.servers.length := by
      rw [List.countP_eq_length]
      exact fun s _ => decide_eq_true (loadedKind_ne s)
    rw [length_nodes, length_nodes, hall] at hlength
    exact fun s hs => of_decide_eq_true (List.countP_eq_length.mp hlength.symm s hs)
  · exact fun h => nodes_congr fun s hs => loadedKind_of_ne (h s (by simpa using hs))

instance (f : File) : Decidable (Registers isOne hostname f) := inferInstanceAs (Decidable (_ = _))

theorem misc_chars : ∀ c ∈ "misc".toList, isNameChar c = true :=
  List.all_eq_true.mp (by decide +kernel)

def miscLine : DatasetLine where
  blank := ' '
  name := "misc".toList
  left := []
  right := []
  rest := []
  blank_space := rfl
  name_ne := List.cons_ne_nil _ _
  name_chars := misc_chars
  left_space := fun _ h => absurd h List.not_mem_nil
  right_space := fun _ h => absurd h List.not_mem_nil

def Server.line (s : Server) (plain : s.Plain) : ServerLine where
  indent := []
  server := s
  rest := []
  indent_space := fun _ h => absurd h List.not_mem_nil
  plain := plain
  closed := List.not_mem_nil

theorem single_lines (plain : s.Plain) (single : '\n' ∉ s.body) :
    ∀ l ∈ [Line.dataset miscLine, .server (s.line plain)], '\n' ∉ l.text := by
  intro l hl
  rcases List.mem_pair.mp hl with rfl | rfl
  · decide
  · simpa [Line.text, ServerLine.text, Server.line] using single

def Server.file (s : Server) (h : s.Plain ∧ '\n' ∉ s.body) : File :=
  ⟨[.dataset miscLine, .server (s.line h.1)], single_lines h.1 h.2⟩

def readServer (datacenter : String) : Server where
  datacenter := datacenter.toList
  readSlave := ['1']
  writeMaster := ['0']
  internetUri := "db1:3306".toList
  internalUri := "db1:3306".toList
  dbName := "jetmon".toList
  dbUser := "user".toList
  dbPassword := "secret".toList
  x := "null".toList
  y := "null".toList
  z := "30".toList

theorem lax_plain : (readServer "lax").Plain ∧ '\n' ∉ (readServer "lax").body :=
  ⟨by decide +kernel, by decide +kernel⟩

theorem bak_plain : (readServer "bak").Plain ∧ '\n' ∉ (readServer "bak").body :=
  ⟨by decide +kernel, by decide +kernel⟩

def laxFile : File := (readServer "lax").file lax_plain

def bakFile : File := (readServer "bak").file bak_plain

theorem registers_iff_no_backup_lax :
    Registers DbPools.isOneText DbPools.localHost laxFile ↔
      ∀ s ∈ laxFile.servers, kind DbPools.isOneText DbPools.localHost s ≠ .backup :=
  registers_iff_no_backup DbPools.isOneText DbPools.localHost laxFile (by decide +kernel)

theorem backup_registered :
    ¬∀ f : File, 4 ≤ (DbPools.localHost.splitOn '.').length →
      Registers DbPools.isOneText DbPools.localHost f := by
  intro h
  have hregisters := h bakFile (by decide +kernel)
  have hnode : ¬Registers DbPools.isOneText DbPools.localHost bakFile := by decide +kernel
  exact hnode hregisters

end ServerLines
