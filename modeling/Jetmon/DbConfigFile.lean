import Jetmon.TextSearch

/-! configuration.load, lib/dbpools.js: the server lines of the dataset 'misc' become the nodes
of a pool cluster. Strings are sequences of Unicode characters. -/
namespace DbConfigFile

abbrev Text := List Char

def quote : Char := Char.ofNat 39

def doubleQuote : Char := Char.ofNat 34

/-- `\s`. -/
def isSpace (c : Char) : Bool :=
  c.toNat ∈ [9, 10, 11, 12, 13, 32, 160, 5760, 8232, 8233, 8239, 8287, 12288, 65279] ||
    (decide (8192 ≤ c.toNat) && decide (c.toNat ≤ 8202))

/-- `[-\w]`. -/
def isNameChar (c : Char) : Bool := c == '-' || c == '_' || c.isAlphanum

def isServer (line : Text) : Bool := "array(".toList.isPrefixOf (line.dropWhile isSpace)

/-- The end of datasetPattern, from the closing quote on. -/
def opensDataset (rest : Text) : Bool :=
  let arrow := rest.tail.dropWhile isSpace
  rest.head? == some quote && "=>".toList.isPrefixOf arrow && isServer (arrow.drop 2)

def datasetName (line : Text) : Option Text :=
  let name := (line.drop 2).takeWhile isNameChar
  if line.head?.any isSpace && (line.drop 1).head? == some quote && !name.isEmpty &&
      opensDataset ((line.drop 2).drop name.length) then
    some name
  else none

def indexOf (c : Char) (text : Text) : ℤ :=
  match text.findIdx? (· == c) with
  | some i => i
  | none => -1

def lastIndexOf (c : Char) (text : Text) : ℤ :=
  match text.reverse.findIdx? (· == c) with
  | some i => (text.length : ℤ) - 1 - i
  | none => -1

/-- `substr`; a negative start counts from the end. -/
def substr (start length : ℤ) (text : Text) : Text :=
  let first := if start < 0 then max 0 (text.length + start) else start
  (text.drop first.toNat).take length.toNat

def arrSettings (line : Text) : List Text :=
  let start := indexOf quote line
  let settings := substr start (lastIndexOf ')' line - start) line
  (settings.filter fun c => c ≠ quote && c ≠ doubleQuote && c ≠ ' ').splitOn ','

structure DbConfig where
  host : Text
  port : Option Text
  user : Text
  password : Text
  database : Text
  connectionLimit : ℕ
  supportBigNumbers : Bool
  multipleStatements : Bool
  deriving DecidableEq, Repr

structure Node where
  name : String
  config : DbConfig
  deriving DecidableEq, Repr

/-- The variables of the loop, and what has been added. `failed` is set where load returns
false; database.init, the only callBack it is given, ends the process at that point. -/
structure Load where
  currentDataset : Option Text
  slaveUniqueCount : ℕ
  backupUniqueCount : ℕ
  nodes : List Node
  failed : Bool
  deriving DecidableEq, Repr

def setting (i : ℕ) (settings : List Text) : Text := settings[i]?.getD []

def datacenter : ℕ := 0
def writeMaster : ℕ := 2
def internetUri : ℕ := 3
def dbName : ℕ := 5
def dbUser : ℕ := 6
def dbPassword : ℕ := 7

def dbConfig (settings : List Text) : DbConfig where
  host := setting 0 ((setting internetUri settings).splitOn ':')
  port := ((setting internetUri settings).splitOn ':')[1]?
  user := setting dbUser settings
  password := setting dbPassword settings
  database := setting dbName settings
  connectionLimit := 5
  supportBigNumbers := true
  multipleStatements := false

-- `isOne text` is the comparison `1 == text`
variable (isOne : Text → Bool) (hostname : Text)

def addServer (settings : List Text) (p : Load) : Load :=
  let config := dbConfig settings
  if isOne (setting writeMaster settings) then
    { p with nodes := p.nodes ++ [⟨"MISC_MASTER", { config with multipleStatements := true }⟩] }
  else
    let aHost := hostname.splitOn '.'
    if aHost.length < 4 then { p with failed := true }
    else
      let installedDC := setting (aHost.length - 3) aHost
      if TextSearch.find installedDC (setting datacenter settings) ≠ ⊤ then
        { p with
          nodes := p.nodes ++ [⟨"MISC_SLAVE" ++ toString p.slaveUniqueCount, config⟩]
          slaveUniqueCount := p.slaveUniqueCount + 1 }
      else if TextSearch.find ([quote] ++ "bak".toList ++ [quote]) (setting datacenter settings) = ⊤
      then
        { p with
          nodes := p.nodes ++ [⟨"MISC_FAILOVER" ++ toString p.backupUniqueCount, config⟩]
          backupUniqueCount := p.backupUniqueCount + 1 }
      else p

def loadLine (p : Load) (line : Text) : Load :=
  if p.failed then p
  else
    let p := { p with currentDataset := (datasetName line).or p.currentDataset }
    if p.currentDataset ≠ some "misc".toList then p
    else if !isServer line then p
    else if (arrSettings line).length ≠ 11 then p
    else addServer isOne hostname (arrSettings line) p

def load (data : Text) : Load :=
  (data.splitOn '\n').foldl (loadLine isOne hostname) ⟨none, 1, 1, [], false⟩

theorem indexOf_append {c : Char} {front : Text} (h : c ∉ front) (text : Text) :
    indexOf c (front ++ c :: text) = front.length := by
  have hnone : front.findIdx? (· == c) = none := by
    refine List.findIdx?_eq_none_iff.mpr fun d hd => ?_
    rw [beq_eq_false_iff_ne]
    exact fun heq => h (heq ▸ hd)
  simp [indexOf, List.findIdx?_append, hnone, List.findIdx?_cons]

theorem lastIndexOf_append {c : Char} {rest : Text} (h : c ∉ rest) (text : Text) :
    lastIndexOf c (text ++ c :: rest) = text.length := by
  have hrest : c ∉ rest.reverse := by simpa using h
  have hfirst := indexOf_append hrest text.reverse
  have hfind : (rest.reverse ++ c :: text.reverse).findIdx? (· == c) = some rest.length := by
    rw [indexOf] at hfirst
    split at hfirst
    · rename_i hsome
      rw [hsome, Option.some_inj]
      simpa using hfirst
    · simp at hfirst
  have hreverse : (text ++ c :: rest).reverse = rest.reverse ++ c :: text.reverse := by simp
  rw [lastIndexOf, hreverse, hfind]
  simp
  omega

theorem substr_append (front body rest : Text) :
    substr front.length body.length (front ++ body ++ rest) = body := by
  have hfirst : ¬(front.length : ℤ) < 0 := by omega
  simp [substr, if_neg hfirst]

theorem arrSettings_append {front body rest : Text} (hfront : quote ∉ front)
    (hquote : body.head? = some quote) (hrest : ')' ∉ rest) :
    arrSettings (front ++ body ++ ')' :: rest) =
      (body.filter fun c => c ≠ quote && c ≠ doubleQuote && c ≠ ' ').splitOn ',' := by
  obtain ⟨tail, rfl⟩ : ∃ tail, body = quote :: tail := by
    cases body with
    | nil => cases hquote
    | cons c tail =>
      obtain rfl : c = quote := Option.some.inj hquote
      exact ⟨tail, rfl⟩
  have hstart : indexOf quote (front ++ quote :: tail ++ ')' :: rest) = front.length := by
    rw [List.append_assoc]
    exact indexOf_append hfront _
  have hend := lastIndexOf_append hrest (front ++ quote :: tail)
  simp only [arrSettings, hstart, hend]
  rw [List.length_append, Nat.cast_add, add_sub_cancel_left, substr_append]

theorem datasetName_none {line : Text}
    (h : (line.head?.any isSpace && (line.drop 1).head? == some quote) = false) :
    datasetName line = none := by
  simp only [datasetName, h, Bool.false_and]
  rfl

theorem datasetName_append {blank : Char} {name rest : Text} (hblank : isSpace blank = true)
    (hne : name ≠ []) (hname : ∀ c ∈ name, isNameChar c = true) (hrest : opensDataset rest = true) :
    datasetName (blank :: quote :: name ++ rest) = some name := by
  have hstop : rest.takeWhile isNameChar = [] := by
    cases rest with
    | nil => rfl
    | cons c rest =>
      rw [opensDataset, Bool.and_eq_true, Bool.and_eq_true, List.head?_cons, beq_iff_eq] at hrest
      obtain rfl : c = quote := Option.some.inj hrest.1.1
      rfl
  have htake : (name ++ rest).takeWhile isNameChar = name := by
    rw [List.takeWhile_append_of_pos hname, hstop, List.append_nil]
  simp [datasetName, htake, hblank, hne, hrest]

end DbConfigFile
