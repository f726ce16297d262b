import Jetmon.TransitionSystem
import Mathlib.Logic.Function.Basic

/-! The log files of the veriflier (logger.cpp): the file that is written and those put aside
when it had grown too large. m_mutex is held in the whole of Logger::write, so a call is one
step. The model leaves out errors of the file system and other programs that touch the files. -/
namespace LogRotation

open TransitionSystem

abbrev Bytes := List UInt8

/-- The files by their numbers; 0 is LOG_FILE_NAME itself. -/
abbrev Files (β : Type*) := ℕ → Option β

def logsToKeep : ℕ := 20

def maxLogFilesize : ℕ := 1024 * 1024 * 50

variable {β γ : Type*}

def Files.remove (n : ℕ) (files : Files β) : Files β := Function.update files n none

/-- QFile::copy, which overwrites no file. -/
def Files.copy (source target : ℕ) (files : Files β) : Files β :=
  match files source, files target with
  | some content, none => Function.update files target (some content)
  | _, _ => files

def Files.raise (delLoop : ℕ) (files : Files β) : Files β :=
  if (files delLoop).isSome then
    (if (files (delLoop + 1)).isSome then files.remove (delLoop + 1) else files).copy
      delLoop (delLoop + 1)
  else files

def Files.raiseFrom : ℕ → Files β → Files β
  | 0, files => files
  | n + 1, files => (files.raise (n + 1)).raiseFrom n

def Files.doLogRotation (files : Files β) : Files β :=
  let files := files.raiseFrom (logsToKeep - 1)
  let files := if (files 1).isSome then files.remove 1 else files
  (files.copy 0 1).remove 0

structure Log where
  files : Files Bytes
  isOpen : Bool

def Files.open (files : Files Bytes) : Files Bytes :=
  Function.update files 0 (some ((files 0).getD []))

/-- QFile::size, which is 0 for a file that does not exist. -/
def Log.size (s : Log) : ℕ := ((s.files 0).getD []).length

/-- A text ends at its first zero byte, since c_str is written. -/
def entry (now data : Bytes) : Bytes :=
  now ++ [32, 45, 32] ++ data.takeWhile (· ≠ 0) ++ [10]

def Log.put (text : Bytes) (s : Log) : Log :=
  if s.isOpen then
    { s with files := Function.update s.files 0 (some ((s.files 0).getD [] ++ text)) }
  else s

def Log.rotate (s : Log) : Log :=
  if maxLogFilesize < s.size then { s with files := s.files.doLogRotation.open, isOpen := true }
  else s

def Log.write (now data : Bytes) (s : Log) : Log := s.rotate.put (entry now data)

inductive Event where
  | startLogger
  | stopLogging
  | write (now data : Bytes)

def next (s : Log) : Event → Log
  | .startLogger => { s with files := s.files.open, isOpen := true }
  | .stopLogging => { s with isOpen := false }
  | .write now data => s.write now data

def initial : Log := ⟨fun _ => none, false⟩

def machine : Machine Log Event := ⟨fun s => s = initial, fun _ _ => True, next⟩

def Event.entry : Event → Option Bytes
  | .write now data => some (LogRotation.entry now data)
  | .startLogger | .stopLogging => none

/-- The calls of write that find the file open, or so large that it is opened anew. -/
def Log.Accepts (s : Log) : Prop := s.isOpen = true ∨ maxLogFilesize < s.size

instance (s : Log) : Decidable s.Accepts := instDecidableOr

/-- The entries of the calls that were accepted in a run. -/
def written (s : Log) : List Event → List Bytes
  | [] => []
  | e :: es => (if s.Accepts then e.entry.toList else []) ++ written (next s e) es

variable {groups : Files (List Bytes)} {entries : List Bytes} {s : Log}

/-- From the file with this number, the oldest, to the newest. -/
def chain : ℕ → Files (List Bytes) → List Bytes
  | 0, groups => (groups 0).getD []
  | n + 1, groups => (groups (n + 1)).getD [] ++ chain n groups

theorem chain_congr {other : Files (List Bytes)} {n : ℕ} (h : ∀ k ≤ n, groups k = other k) :
    chain n groups = chain n other := by
  induction n with
  | zero => exact congrArg (Option.getD · []) (h 0 (Nat.le_refl _))
  | succ n ih =>
    rw [chain, chain, h (n + 1) (Nat.le_refl _), ih fun k hk => h k (Nat.le_succ_of_le hk)]

def shifted (groups : Files (List Bytes)) : Files (List Bytes) := fun k =>
  if k = 0 then some [] else if k ≤ logsToKeep then groups (k - 1) else groups k

def opened (groups : Files (List Bytes)) : Files (List Bytes) :=
  Function.update groups 0 (some ((groups 0).getD []))

end LogRotation
