import Ravn.Theory.JsonSpelling
import Ravn.Theory.Lines
import Ravn.Theory.Value

/-! How the control plane reads what the model replied: as an object, as an object in other text, or
field by field where the reply was cut off. The last way has a reader of strings of its own. -/

namespace Ravn

open Theory

/-- `serde_json::from_str` at a `Value`. -/
def valueFromStr (content : List Char) : Option Doc :=
  (Json.parse content).filter fun v => v.depth < Doc.recursionLimit ∧ v.inRange

/-- The explanation and the check of a value. -/
def fromJson (v : Doc) : Option (List Char × Option (List Char)) :=
  ((v.get "explanation").bind Doc.asStr).map fun text =>
    let check := ((v.get "suggested_check").bind Doc.asStr).map fun s => trim s.toList
    (trim text.toList, check.filter fun s => s ≠ [])

/-- `str::rfind`. -/
def rfind (c : Char) : List Char → Option Nat
  | [] => none
  | d :: cs =>
    match rfind c cs with
    | some i => some (i + 1)
    | none => if d = c then some 0 else none

/-- The text from the first opening brace to the last closing one. -/
def embeddedObject (content : List Char) : Option (List Char) :=
  (content.findIdx? (· = '\x7b')).bind fun start =>
    (rfind '\x7d' content).bind fun stop =>
      if start < stop then some ((content.take (stop + 1)).drop start) else none

/-- What a letter after a backslash is taken for. -/
def unescapeLetter : Char → Char
  | 'n' => '\n'
  | 't' => '\t'
  | 'r' => '\r'
  | other => other

/-- The loop of `extract_string_field`: what it collects, and whether it meets the closing quote. -/
def unescape : Bool → List Char → List Char × Bool
  | _, [] => ([], false)
  | true, c :: cs => (unescapeLetter c :: (unescape false cs).1, (unescape false cs).2)
  | false, c :: cs =>
    if c = '\\' then unescape true cs
    else if c = '"' then ([], true)
    else (c :: (unescape false cs).1, (unescape false cs).2)

/-- A value that was not begun is not there. -/
def collected (cs : List Char) : Option (List Char) :=
  if (unescape false cs).2 || (unescape false cs).1 ≠ [] then some (unescape false cs).1 else none

/-- The value in a text that starts with it. -/
def fieldValue (afterColon : List Char) : Option (List Char) :=
  match trimStart afterColon with
  | '"' :: cs => collected cs
  | _ => none

/-- `extract_string_field`. -/
def extractStringField (content key : List Char) : Option (List Char) :=
  (splitOnce ('"' :: key ++ ['"']) content).bind fun (_, rest) =>
    (splitOnce [':'] rest).bind fun (_, afterColon) => fieldValue afterColon

/-- `parse_explanation`. -/
def parseExplanation (content : List Char) : List Char × Option (List Char) :=
  match (valueFromStr content).bind fromJson with
  | some parsed => parsed
  | none =>
    match ((embeddedObject content).bind valueFromStr).bind fromJson with
    | some parsed => parsed
    | none =>
      match extractStringField content "explanation".toList with
      | some text =>
        let check := extractStringField content "suggested_check".toList
        (trim text, check.filter fun s => s ≠ [])
      | none => (trim content, none)

end Ravn
