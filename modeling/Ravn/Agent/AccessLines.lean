import Ravn.Agent.Journal

/-! Who an access event blames. The user name in a line of sshd is whatever the other side offers; that of
sudo stands in front of a command line. Both can hold the markers that the classifiers look for. -/

namespace Ravn.AccessEvents

open Theory

/-! ## Words -/

/-- A word that loses nothing at its end. -/
structure PlainWord (s : List Char) : Prop extends OneWord s where
  unpunctuated : ∀ c ∈ s.getLast?, c ∉ [':', ';', ',', '.']

theorem trimPunctuation_eq_self {s : List Char} :
    trimPunctuation s = s ↔ ∀ c ∈ s.getLast?, c ∉ [':', ';', ',', '.'] := by
  change s.rdropWhile ([':', ';', ',', '.'].contains ·) = s ↔ _
  rw [List.rdropWhile_eq_self_iff]
  rcases List.eq_nil_or_concat' s with rfl | ⟨s, d, rfl⟩
  · exact iff_of_true (fun h => absurd rfl h) nofun
  · simp

theorem wordOf_word {s : List Char} (h : OneWord s) :
    wordOf s = some s ↔ ∀ c ∈ s.getLast?, c ∉ [':', ';', ',', '.'] := by
  rw [wordOf, h.firstWord, Option.map_some, Option.filter_eq_some_iff, Option.some_inj,
    trimPunctuation_eq_self]
  exact and_iff_left (decide_eq_true h.nonempty)

theorem PlainWord.wordOf {s : List Char} (h : PlainWord s) : wordOf s = some s :=
  (wordOf_word h.toOneWord).mpr h.unpunctuated

/-- How the other side authenticated: a word that is not itself taken for a marker. -/
structure SshMethod where
  name : List Char
  word : ' ' ∉ name
  notFor : ¬"for".toList <:+ name
  notFrom : ¬"from".toList <:+ name

/-- Where a connection comes from, and what a line says after that. -/
structure SshPeer where
  addr : List Char
  oneWord : OneWord addr
  tail : List Char
  quiet : ¬"invalid user".toList <:+: addr ++ ' ' :: tail

/-- What a line says after the name. -/
def SshPeer.text (peer : SshPeer) : List Char := "from ".toList ++ (peer.addr ++ ' ' :: peer.tail)

/-- The text of a failure in front of what it says about the user. -/
def SshMethod.lead (method : SshMethod) : List Char := "Failed ".toList ++ (method.name ++ [' '])

/-- What a line of sshd reports of the user it names; of a failure it tells whether the user exists. -/
inductive SshForm where
  | accepted (method : SshMethod)
  | failed (method : SshMethod) (known : Bool)
  | invalidUser

namespace SshForm

/-- The text in front of the user's name. -/
def head : SshForm → List Char
  | accepted method => "Accepted ".toList ++ (method.name ++ [' '] ++ "for ".toList)
  | failed method true => method.lead ++ "for ".toList
  | failed method false => method.lead ++ "for ".toList ++ "invalid user ".toList
  | invalidUser => "Invalid user ".toList

def line (form : SshForm) (name : List Char) (peer : SshPeer) : List Char :=
  form.head ++ (name ++ [' '] ++ peer.text)

def action : SshForm → String
  | accepted _ => "ssh_login"
  | failed .. => "ssh_failed"
  | invalidUser => "ssh_invalid_user"

def severity : SshForm → Severity
  | accepted _ => .notice
  | failed .. | invalidUser => .warning

def succeeded : SshForm → Bool
  | accepted _ => true
  | failed .. | invalidUser => false

/-- The line is about a user that exists, and says so by saying nothing. -/
def known : SshForm → Bool
  | failed _ known => known
  | accepted _ | invalidUser => false

end SshForm

end Ravn.AccessEvents
