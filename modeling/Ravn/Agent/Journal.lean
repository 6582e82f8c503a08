import Ravn.Core.Event
import Ravn.Theory.Serde
import Ravn.Theory.Words

/-! The journald tap: a record of the journal becomes an access event if it is one and the tap looks for
these, or a generic event if it is urgent enough. Access events are recognised by the text of the record:
the classifiers look for markers in it and take the word after them. -/

namespace Ravn

open Theory

/-- A journal record, `Map<String, Value>`. -/
abbrev JournalRecord := BTreeMap String Doc

/-- A field of a record that is a text. -/
def JournalRecord.field (rec : JournalRecord) (key : String) : Option String := (rec.get key).bind Doc.asStr

namespace AccessEvents

/-- `str::contains`. -/
def contains (s pat : List Char) : Bool := (splitOnce pat s).isSome

/-- `trim_end_matches([':', ';', ',', '.'])`. -/
def trimPunctuation (word : List Char) : List Char :=
  (word.reverse.dropWhile ([':', ';', ',', '.'].contains ·)).reverse

/-- The first word of a text, without its trailing punctuation. -/
def wordOf (s : List Char) : Option (List Char) :=
  ((firstWord s).map trimPunctuation).filter (· ≠ [])

structure Detected where
  action : String
  user : Option (List Char)
  remote : Option (List Char)
  succeeded : Bool
  severity : Severity

def Detected.title (d : Detected) : String :=
  match d.user, d.remote with
  | some u, some r => d.action ++ ": " ++ String.ofList u ++ " from " ++ String.ofList r
  | some u, none => d.action ++ ": " ++ String.ofList u
  | none, some r => d.action ++ " from " ++ String.ofList r
  | none, none => d.action

def Detected.payload (d : Detected) : AuthPayload where
  action := d.action
  user := d.user.map String.ofList
  remoteAddr := d.remote.map String.ofList
  succeeded := d.succeeded
  extra := .empty

end AccessEvents

/-! ## The tap -/

namespace JournaldTap

/-- `truncate`, by characters. -/
def truncate (s : String) (max : Nat) : String :=
  if s.toList.length ≤ max then s else String.ofList (s.toList.take max) ++ "…"

/-- A record's priority. -/
def priority (rec : JournalRecord) : UInt8 :=
  ((rec.field "PRIORITY").bind fun p => parseUnsigned UInt8.size p.toList).elim 6 UInt8.ofNat

end JournaldTap

end Ravn
