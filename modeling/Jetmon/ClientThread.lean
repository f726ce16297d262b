import Jetmon.CheckController

/-! The requests of Jetmon servers as the veriflier reads them, source/client_thread.cpp. A
value that a document does not have is Undefined, here `none`. -/
namespace ClientThread

open CheckController
open JsonValue

inductive QueryType where
  | unknownQuery | serviceRunning | siteStatusCheck | siteStatusPostCheck
  deriving DecidableEq, Repr

/-- False for Undefined. -/
def isNull : Option (Json ℤ) → Bool
  | some .null => true
  | _ => false

def toString : Option (Json ℤ) → String
  | some (.str s) => s
  | _ => ""

/-- 0 for a number that is no int. -/
def toInt : Option (Json ℤ) → Int32
  | some (.num n) => if -2 ^ 31 ≤ n ∧ n < 2 ^ 31 then Int32.ofInt n else 0
  | _ => 0

def toArray : Option (Json ℤ) → List (Json ℤ)
  | some (.arr items) => items
  | _ => []

def parseCheck (check : Json ℤ) : Option (Int32 × String) :=
  let blogId := check.get "blog_id"
  let monitorUrl := check.get "monitor_url"
  if isNull blogId then none
  else if isNull monitorUrl then none
  else some (toInt blogId, toString monitorUrl)

/-- parse_requests: the sites of m_checks, or what sendError is called with. -/
def parseRequests (type : QueryType) (document : Json ℤ) : Except String (List (Int32 × String)) :=
  if type = .siteStatusCheck then
    if isNull (document.get "blog_id") then .error "Missing 'blog_id' JSON value."
    else if isNull (document.get "monitor_url") then .error "Missing 'monitor_url' JSON value."
    else .ok [(toInt (document.get "blog_id"), toString (document.get "monitor_url"))]
  else if (toArray (document.get "checks")).isEmpty then .error "Missing 'checks' JSON array."
  else .ok ((toArray (document.get "checks")).filterMap parseCheck)

/-- The end of readRequest, for a document that was received: the token is asked for, but any
text will do. -/
def readDocument (type : QueryType) (document : Json ℤ) :
    Except String (List (Int32 × String)) :=
  if toString (document.get "auth_token") = "" then .error "Missing 'auth_token' JSON value."
  else parseRequests type document

theorem toInt_num {n : ℤ} (h : -2 ^ 31 ≤ n) (h' : n < 2 ^ 31) :
    (toInt (some (.num n))).toInt = n := by
  rw [toInt, if_pos ⟨h, h'⟩, Int32.toInt_ofInt_of_le h h']

theorem toInt_eq_iff {n : ℕ} : (toInt (some (.num n))).toInt = n ↔ n < 2 ^ 31 := by
  constructor
  · intro h
    have hlt := Int32.toInt_lt (toInt (some (.num n)))
    omega
  · intro h
    exact toInt_num (by omega) (by omega)

end ClientThread
