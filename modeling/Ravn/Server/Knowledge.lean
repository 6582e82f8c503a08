import Ravn.Core.Remediation
import Ravn.Server.EventField

/-! The remediation knowledge base: a directory of markdown files, one per fault signature, with the
outcomes of past remediations in a hand-written front matter. Without a directory it is disabled. -/

namespace Ravn

open Theory

/-- `to_rfc3339` and `parse_from_rfc3339` of chrono, which the front matter is written with. -/
structure Rfc3339 where
  toRfc3339 : DateTime → String
  parseFromRfc3339 : List Char → Option DateTime

/-- `status_str`. -/
def ActionStatus.statusStr : ActionStatus → String
  | succeeded => "succeeded"
  | failed => "failed"
  | rejected => "rejected"
  | preconditionFailed => "precondition_failed"
  | frozen => "frozen"

/-- `slug`: lower-case letters, digits, dots and underscores are kept, and every run of other
characters becomes one hyphen, except at the ends. The flag says that the last one was a hyphen. -/
def slugFrom : Bool → List Char → List Char
  | _, [] => []
  | lastDash, c :: cs =>
    if c.isAlphanum ∨ c = '.' ∨ c = '_' then c.toLower :: slugFrom false cs
    else if lastDash then slugFrom true cs
    else '-' :: slugFrom true cs

def slug (signature : String) : String :=
  String.ofList (trimEndMatches '-' (trimStartMatches '-' (slugFrom false signature.toList)))

namespace Knowledge

structure Outcome where
  ts : DateTime
  result : String
  ttrS : Option Int
  approver : String
deriving DecidableEq

/-- A file: its front matter and the text after it. -/
structure Entry where
  faultSignature : String
  /-- The template with its version, or `gap` for a fault that no template handles. -/
  templateUsed : String
  params : BTreeMap String String
  outcomes : List Outcome
  occurrences : UInt64
  lastSeen : DateTime
  body : String

/-! ## The files -/

variable (F : Rfc3339)

def renderParams (params : BTreeMap String String) : String :=
  ", ".intercalate (params.entries.map fun p => p.1 ++ ": " ++ p.2)

def Outcome.render (o : Outcome) : String :=
  "  - \x7b ts: " ++ F.toRfc3339 o.ts ++ ", result: " ++ o.result ++ ", ttr_s: " ++
    (match o.ttrS with | some v => toString v | none => "null") ++ ", approver: \"" ++ o.approver ++
    "\" \x7d\n"

def Entry.toMarkdown (e : Entry) : String :=
  "---\n" ++ "fault_signature: \"" ++ e.faultSignature ++ "\"\n" ++
    "template_used: " ++ e.templateUsed ++ "\n" ++
    "params: \x7b " ++ renderParams e.params ++ " \x7d\n" ++
    (if e.outcomes.isEmpty then "outcomes: []\n"
      else "outcomes:\n" ++ String.join (e.outcomes.map (Outcome.render F))) ++
    "occurrences: " ++ toString e.occurrences.toNat ++ "\n" ++
    "last_seen: " ++ F.toRfc3339 e.lastSeen ++ "\n" ++ "---\n" ++ e.body ++
    (if e.body.endsWith "\n" then "" else "\n")

def unquote (cs : List Char) : List Char :=
  trimEndMatches '\"' (trimStartMatches '\"' (trim cs))

/-- What stands between the braces of an inline map. -/
def insideBraces (raw : List Char) : List Char :=
  trim (trimEndMatches '\x7d' (trimStartMatches '\x7b' (trim raw)))

def parseParams (raw : List Char) : BTreeMap String String :=
  let inner := insideBraces raw
  if inner.isEmpty then .empty
  else (split ',' inner).foldl (fun params pair =>
    match splitOnce [':'] pair with
    | some (k, v) => params.insert (String.ofList (trim k)) (String.ofList (trim v))
    | none => params) .empty

/-- `split_top_level`, with the depth of brackets and whether a quote is open; `acc` holds what has
been read of the current part, reversed. -/
def splitTopLevel (depth : Int) (inQuote : Bool) : List Char → List Char → List (List Char)
  | acc, [] => [acc.reverse]
  | acc, c :: cs =>
    if c = '\"' then splitTopLevel depth (!inQuote) (c :: acc) cs
    else if (c = '\x7b' ∨ c = '[') ∧ inQuote = false then
      splitTopLevel (depth + 1) inQuote (c :: acc) cs
    else if (c = '\x7d' ∨ c = ']') ∧ inQuote = false then
      splitTopLevel (depth - 1) inQuote (c :: acc) cs
    else if c = ',' ∧ depth = 0 ∧ inQuote = false then
      acc.reverse :: splitTopLevel depth inQuote [] cs
    else splitTopLevel depth inQuote (c :: acc) cs

/-- The fields of an outcome as far as they have been read. -/
structure OutcomeFields where
  ts : Option DateTime
  result : Option String
  ttrS : Option Int
  approver : String

def OutcomeFields.read (f : OutcomeFields) (pair : List Char) : Option OutcomeFields :=
  (splitOnce [':'] pair).map fun (k, v) =>
    let v := trim v
    match String.ofList (trim k) with
    | "ts" => { f with ts := F.parseFromRfc3339 v }
    | "result" => { f with result := some (String.ofList v) }
    | "ttr_s" => { f with ttrS := if v = "null".toList then none else parseSigned (2 ^ 63) v }
    | "approver" => { f with approver := String.ofList (unquote v) }
    | _ => f

def parseOutcome (raw : List Char) : Option Outcome := do
  let f ← (splitTopLevel 0 false [] (insideBraces raw)).foldlM (OutcomeFields.read F)
    ⟨none, none, none, ""⟩
  let ts ← f.ts
  let result ← f.result
  return ⟨ts, result, f.ttrS, f.approver⟩

/-- One line of the front matter outside a list, and whether the items of `outcomes` follow it. Keys
that are not known are ignored. -/
def readLine (e : Entry) (line : List Char) : Entry × Bool :=
  let line := trimEnd line
  if let some v := stripPrefix "fault_signature:".toList line then
    ({ e with faultSignature := String.ofList (unquote (trim v)) }, false)
  else if let some v := stripPrefix "template_used:".toList line then
    ({ e with templateUsed := String.ofList (trim v) }, false)
  else if let some v := stripPrefix "params:".toList line then
    ({ e with params := parseParams (trim v) }, false)
  else if let some v := stripPrefix "occurrences:".toList line then
    ({ e with occurrences := .ofNat ((parseUnsigned (2 ^ 64) (trim v)).getD 0) }, false)
  else if let some v := stripPrefix "last_seen:".toList line then
    ({ e with lastSeen := (F.parseFromRfc3339 (trim v)).getD e.lastSeen }, false)
  else (e, trim line = "outcomes:".toList)

/-- The front matter, line by line; the flag says that an item of `outcomes` may follow. -/
def readFront : Bool → Entry → List (List Char) → Entry
  | _, e, [] => e
  | inItems, e, line :: lines =>
    match if inItems then stripPrefix "- ".toList (trimStart line) else none with
    | some item =>
      readFront true { e with outcomes := e.outcomes ++ (parseOutcome F (trim item)).toList } lines
    | none =>
      let (e, items) := readLine F e line
      readFront items e lines

/-- `from_markdown`; `none` where the front matter is not delimited. A file without `last_seen` was
last seen now. -/
def Entry.fromMarkdown (now : DateTime) (text : String) : Option Entry := do
  let rest ← stripPrefix "---\n".toList text.toList
  let (front, body) ← splitOnce "\n---\n".toList rest
  return readFront F false ⟨"", "", .empty, [], 0, now, String.ofList body⟩ (lines front)

end Knowledge

/-! ## The knowledge base -/

open Knowledge

variable (F : Rfc3339)

/-- The files by their stems, or no directory. -/
structure KnowledgeBase where
  dir : Option (String → Option String)

namespace KnowledgeBase

def isEnabled (kb : KnowledgeBase) : Bool := kb.dir.isSome

/-- `load`: a file that does not parse is ignored. -/
def load (kb : KnowledgeBase) (now : DateTime) (signature : String) : Option Entry := do
  let dir ← kb.dir
  let text ← dir (slug signature)
  Entry.fromMarkdown F now text

/-- `store`, with the outcome of writing and renaming the temporary file. -/
def store (kb : KnowledgeBase) (written : Bool) (e : Entry) : KnowledgeBase :=
  if written then
    ⟨kb.dir.map fun dir stem =>
      if stem = slug e.faultSignature then some (e.toMarkdown F) else dir stem⟩
  else kb

/-- `recall`: a note on the remediations of a fault that have succeeded. The sum wraps at 64 bits, as it
does in a release build. -/
def «recall» (kb : KnowledgeBase) (now : DateTime) (signature : String) : Option String := do
  let entry ← kb.load F now signature
  if entry.templateUsed = "gap" ∨ entry.outcomes = [] then none
  else
    let successes := entry.outcomes.filter fun o => o.result = "succeeded"
    if successes = [] then none
    else
      let ttrs := successes.filterMap Outcome.ttrS
      let avg := if ttrs = [] then ""
        else ", avg " ++ toString ((ttrs.sum.bmod (2 ^ 64)).tdiv ttrs.length) ++ "s"
      some ("Recall: last " ++ toString entry.occurrences.toNat ++
        " time(s) this fault fired, template " ++ entry.templateUsed ++ " succeeded " ++
        toString successes.length ++ "/" ++ toString entry.outcomes.length ++ avg ++ ".")

def retrospectiveBody (signature : String) (e : Entry) : String :=
  let succeeded := (e.outcomes.filter fun o => o.result = "succeeded").length
  "# " ++ signature ++ "\n\n**Reflect:** template `" ++ e.templateUsed ++ "` has been applied " ++
    toString e.occurrences.toNat ++ " time(s) to this fault, succeeding " ++ toString succeeded ++
    "/" ++ toString e.outcomes.length ++
    ". Recurrence may indicate an upstream cause worth a deeper look.\n"

def gapBody (signature : String) (event : Event) : String :=
  "# " ++ signature ++ "\n\n**Gap:** no remediation template matched this fault on `" ++
    event.host ++ "`. Author a template so the control plane can remediate it next time.\n\n" ++
    "Event title: " ++ event.title ++ "\n"

/-- `record_outcome`. The count wraps at 64 bits, as it does in a release build. -/
def recordOutcome (kb : KnowledgeBase) (signature : String) (proposal : RemediationProposal)
    (status : ActionStatus) (ttrS : Option Int) (approver : String) (now : DateTime)
    (written : Bool) : KnowledgeBase :=
  if kb.isEnabled then
    let templateUsed := proposal.templateId ++ "@" ++ toString proposal.templateVersion.toNat
    let e := (kb.load F now signature).getD
      ⟨signature, templateUsed, proposal.params, [], 0, now, ""⟩
    let e := { e with
      templateUsed := templateUsed
      params := proposal.params
      outcomes := e.outcomes ++ [(⟨now, status.statusStr, ttrS, approver⟩ : Knowledge.Outcome)]
      occurrences := e.occurrences + 1
      lastSeen := now }
    kb.store F written { e with body := retrospectiveBody signature e }
  else kb

/-- `record_gap`: an event that no template matches. -/
def recordGap (kb : KnowledgeBase) (event : Event) (now : DateTime) (written : Bool) :
    KnowledgeBase :=
  if kb.isEnabled then
    let signature := faultSignature event
    let e := (kb.load F now signature).getD ⟨signature, "gap", .empty, [], 0, now, ""⟩
    let e := { e with
      templateUsed := if e.templateUsed.isEmpty then "gap" else e.templateUsed
      occurrences := e.occurrences + 1
      lastSeen := now }
    kb.store F written
      { e with body := if e.body.isEmpty then gapBody signature event else e.body }
  else kb

end KnowledgeBase

end Ravn
