import Ravn.Crypto.Ed25519
import Ravn.K8s.CommandLoop

/-! What unauthenticated messages can do to the in-cluster executor. None of them is executed, but the
loop remembers a command id before it verifies the envelope, so a forged message takes the id away
from the genuine command that comes after it. That is all they can do
(`executedCommands_eq_iff`). -/

namespace Ravn

/-- A message of a sequence into which messages have been inserted. -/
structure Arrival (σ : Type u) where
  delivery : Delivery σ
  inserted : Bool

/-- All messages, and those that were there before any was inserted. -/
def delivered (as : List (Arrival σ)) : List (Delivery σ) := as.map Arrival.delivery

def genuine (as : List (Arrival σ)) : List (Delivery σ) :=
  (as.filter fun a => !a.inserted).map Arrival.delivery

theorem delivered_cons (a : Arrival σ) (as : List (Arrival σ)) :
    delivered (a :: as) = a.delivery :: delivered as := rfl

theorem genuine_cons (d : Delivery σ) (as : List (Arrival σ)) :
    genuine (⟨d, false⟩ :: as) = d :: genuine as := rfl

theorem genuine_inserted (d : Delivery σ) (as : List (Arrival σ)) :
    genuine (⟨d, true⟩ :: as) = genuine as := rfl

section

variable (P : Platform) (parseTime : String → Option DateTime) {σ : Type u} (ring : Keyring P)

/-- A message that is unparseable, or whose envelope fails verification. -/
def Delivery.Unauthenticated (d : Delivery σ) : Prop :=
  ∀ env, d.envelope parseTime = some env → verifies P ring env d.now = false

/-- As far as the loop gets, no genuine message that verifies and is the first genuine one with its id
comes after an inserted message with that id. `seen` and `forged` are the ids of the genuine and of
the inserted messages so far. -/
def NotForestalled : List Uuid → List Uuid → List (Arrival σ) → Prop
  | _, _, [] => True
  | seen, forged, a :: as =>
    match a.delivery.envelope parseTime with
    | none => NotForestalled seen forged as
    | some env =>
      if a.inserted then NotForestalled seen (env.commandId :: forged) as
      else if env.commandId ∈ seen ∨ verifies P ring env a.delivery.now = false then
        NotForestalled (env.commandId :: seen) forged as
      else
        env.commandId ∉ forged ∧
          ((handleCommand P a.delivery.host ring env a.delivery.fuel a.delivery.state).1.isReturned =
            true → NotForestalled (env.commandId :: seen) forged as)

/-- The verified commands of a loop that has seen some ids already. -/
def executedFrom (seen : List Uuid) (ds : List (Delivery σ)) : List CommandRun :=
  (runCommandLoop P parseTime ring seen ds).filter fun r => verifies P ring r.env r.now

end

section

variable {P : Platform} {parseTime : String → Option DateTime} {σ : Type u} {ring : Keyring P}

/-! ## One message -/

/-- Of the ids only the set matters. -/
theorem runCommandLoop_congr {seen seen' : List Uuid} (h : ∀ id, id ∈ seen ↔ id ∈ seen')
    (ds : List (Delivery σ)) :
    runCommandLoop P parseTime ring seen ds = runCommandLoop P parseTime ring seen' ds := by
  induction ds generalizing seen seen' with
  | nil => rfl
  | cons d ds ih =>
    cases henv : d.envelope parseTime with
    | none => rw [runCommandLoop_unparsed henv, runCommandLoop_unparsed henv, ih h]
    | some env =>
      by_cases hseen : env.commandId ∈ seen
      · rw [runCommandLoop_seen henv hseen, runCommandLoop_seen henv ((h _).mp hseen), ih h]
      · have hcons : ∀ id, id ∈ env.commandId :: seen ↔ id ∈ env.commandId :: seen' := by
          simp [h]
        rw [runCommandLoop_new henv hseen, runCommandLoop_new henv fun hmem => hseen ((h _).mpr hmem),
          ih hcons]

theorem executedFrom_unparsed {d : Delivery σ} (henv : d.envelope parseTime = none)
    (seen : List Uuid) (ds : List (Delivery σ)) :
    executedFrom P parseTime ring seen (d :: ds) = executedFrom P parseTime ring seen ds := by
  rw [executedFrom, runCommandLoop_unparsed henv, executedFrom]

/-- A message that leads to nothing but the memory of its id. -/
theorem executedFrom_skip {d : Delivery σ} (henv : d.envelope parseTime = some env)
    (h : env.commandId ∈ seen ∨ verifies P ring env d.now = false) (ds : List (Delivery σ)) :
    executedFrom P parseTime ring seen (d :: ds) =
      executedFrom P parseTime ring (env.commandId :: seen) ds := by
  unfold executedFrom
  by_cases hseen : env.commandId ∈ seen
  · have hcons : ∀ id, id ∈ seen ↔ id ∈ env.commandId :: seen := by
      intro id
      simp only [List.mem_cons]
      exact ⟨.inr, fun hid => hid.elim (fun heq => heq ▸ hseen) fun hid => hid⟩
    rw [runCommandLoop_seen henv hseen, runCommandLoop_congr hcons]
  · have hfalse : verifies P ring env d.now = false := h.resolve_left hseen
    obtain ⟨hreturned, -⟩ := handleCommand_not_verified (H := d.host) hfalse d.fuel
    rw [runCommandLoop_new henv hseen, hreturned]
    simp [hfalse]

/-- The first message with its id, if it verifies. -/
theorem executedFrom_new {d : Delivery σ} (henv : d.envelope parseTime = some env)
    (hseen : env.commandId ∉ seen) (hverifies : verifies P ring env d.now = true)
    (ds : List (Delivery σ)) :
    executedFrom P parseTime ring seen (d :: ds) =
      ⟨env, d.now, (handleCommand P d.host ring env d.fuel d.state).1,
        (handleCommand P d.host ring env d.fuel d.state).2.1⟩ ::
      if (handleCommand P d.host ring env d.fuel d.state).1.isReturned then
        executedFrom P parseTime ring (env.commandId :: seen) ds else [] := by
  unfold executedFrom
  simp only [runCommandLoop_new henv hseen, List.filter_cons, hverifies, if_true]
  split <;> rfl

/-! ## Both runs -/

theorem notForestalled_unparsed {a : Arrival σ} (henv : a.delivery.envelope parseTime = none) :
    NotForestalled P parseTime ring seen forged (a :: as) ↔
      NotForestalled P parseTime ring seen forged as := by
  rw [NotForestalled, henv]

theorem notForestalled_inserted {d : Delivery σ} (henv : d.envelope parseTime = some env) :
    NotForestalled P parseTime ring seen forged (⟨d, true⟩ :: as) ↔
      NotForestalled P parseTime ring seen (env.commandId :: forged) as := by
  simp only [NotForestalled, henv, if_true]

theorem notForestalled_skip {d : Delivery σ} (henv : d.envelope parseTime = some env)
    (h : env.commandId ∈ seen ∨ verifies P ring env d.now = false) :
    NotForestalled P parseTime ring seen forged (⟨d, false⟩ :: as) ↔
      NotForestalled P parseTime ring (env.commandId :: seen) forged as := by
  simp only [NotForestalled, henv, if_pos h, Bool.false_eq_true, if_false]

theorem notForestalled_new {d : Delivery σ} (henv : d.envelope parseTime = some env)
    (h : ¬(env.commandId ∈ seen ∨ verifies P ring env d.now = false)) :
    NotForestalled P parseTime ring seen forged (⟨d, false⟩ :: as) ↔
      env.commandId ∉ forged ∧
        ((handleCommand P d.host ring env d.fuel d.state).1.isReturned = true →
          NotForestalled P parseTime ring (env.commandId :: seen) forged as) := by
  simp only [NotForestalled, henv, if_neg h, Bool.false_eq_true, if_false]

/-- An inserted message only adds its id. -/
theorem executedFrom_inserted {d : Delivery σ} (hunauth : d.Unauthenticated P parseTime ring)
    (henv : d.envelope parseTime = some env) (seen forged : List Uuid) (ds : List (Delivery σ)) :
    executedFrom P parseTime ring (seen ++ forged) (d :: ds) =
      executedFrom P parseTime ring (seen ++ env.commandId :: forged) ds := by
  have hids : ∀ id, id ∈ env.commandId :: (seen ++ forged) ↔ id ∈ seen ++ env.commandId :: forged := by
    intro id
    simp only [List.mem_cons, List.mem_append]
    exact or_left_comm
  rw [executedFrom_skip henv (.inr (hunauth env henv)), executedFrom, executedFrom,
    runCommandLoop_congr hids]

/-- The two runs side by side, from a point where the one has seen the genuine ids and the other the
inserted ones, too. -/
theorem executedFrom_eq_iff {as : List (Arrival σ)} (seen forged : List Uuid)
    (hins : ∀ a ∈ as, a.inserted = true → a.delivery.Unauthenticated P parseTime ring) :
    executedFrom P parseTime ring (seen ++ forged) (delivered as) =
        executedFrom P parseTime ring seen (genuine as) ↔
      NotForestalled P parseTime ring seen forged as := by
  induction as generalizing seen forged with
  | nil => simp [delivered, genuine, executedFrom, runCommandLoop, NotForestalled]
  | cons a as ih =>
    have hrest := fun seen forged => ih seen forged fun b hb => hins b (List.mem_cons_of_mem _ hb)
    have hhead := hins a List.mem_cons_self
    obtain ⟨d, inserted⟩ := a
    cases henv : d.envelope parseTime with
    | none =>
      rw [delivered_cons, executedFrom_unparsed henv, notForestalled_unparsed henv, ← hrest]
      cases inserted with
      | true => rw [genuine_inserted]
      | false => rw [genuine_cons, executedFrom_unparsed henv]
    | some env =>
      cases inserted with
      | true =>
        rw [delivered_cons, genuine_inserted, executedFrom_inserted (hhead rfl) henv,
          notForestalled_inserted henv, hrest]
      | false =>
        rw [delivered_cons, genuine_cons]
        by_cases hskip : env.commandId ∈ seen ∨ verifies P ring env d.now = false
        · have hskip' : env.commandId ∈ seen ++ forged ∨ verifies P ring env d.now = false :=
            hskip.imp_left (List.mem_append_left _)
          rw [notForestalled_skip henv hskip, executedFrom_skip henv hskip',
            executedFrom_skip henv hskip, ← List.cons_append, hrest]
        · obtain ⟨hseen, hverifies⟩ := not_or.mp hskip
          have hverifies : verifies P ring env d.now = true := by simpa using hverifies
          rw [notForestalled_new henv hskip, executedFrom_new henv hseen hverifies]
          by_cases hforged : env.commandId ∈ forged
          · -- The genuine command is dropped in the run with the inserted messages.
            refine iff_of_false (fun heq => ?_) fun h => h.1 hforged
            have hmem := List.mem_of_mem_filter (heq ▸ List.mem_cons_self)
            exact (runCommandLoop_distinct _ _).1 _ hmem (List.mem_append_right _ hforged)
          · have hnew : env.commandId ∉ seen ++ forged := by
              simp [hseen, hforged]
            rw [executedFrom_new henv hnew hverifies]
            by_cases hreturned :
                (handleCommand P d.host ring env d.fuel d.state).1.isReturned = true
            · rw [if_pos hreturned, if_pos hreturned, List.cons_inj_right, ← List.cons_append, hrest]
              exact ⟨fun h => ⟨hforged, fun _ => h⟩, fun h => h.2 hreturned⟩
            · rw [if_neg hreturned, if_neg hreturned]
              exact iff_of_true rfl ⟨hforged, fun h => absurd h hreturned⟩

end

/-- For any sequence of messages with unauthenticated ones inserted anywhere: the verified commands
that are executed, and all that is executed for them, are those of the sequence without the inserted
messages, if and only if no inserted message forestalls a genuine command. -/
theorem executedCommands_eq_iff (P : Platform) (parseTime : String → Option DateTime) {σ : Type u}
    (ring : Keyring P) (as : List (Arrival σ))
    (hins : ∀ a ∈ as, a.inserted = true → a.delivery.Unauthenticated P parseTime ring) :
    executedCommands P parseTime ring (delivered as) =
        executedCommands P parseTime ring (genuine as) ↔
      NotForestalled P parseTime ring [] [] as :=
  executedFrom_eq_iff [] [] hins

/-! ## A forged id -/

namespace Platform

/-- A cluster in which every call succeeds, at noon. -/
def sampleCluster : Host Unit where
  run _ s := (.ok none, s)
  utcNow s := (noon, s)
  instantNow s := (0, s)
  sleep _ s := s

/-- The deletion of a pod, under a given id. -/
def sampleDeletePod (id : Uuid) : CommandEnvelope :=
  { sampleEnvelope with
    commandId := id
    preconditions := []
    steps := [.deletePod "web" "api-0"]
    verify := none
    rollback := .none }

def sampleDelivery (env : CommandEnvelope) : Delivery Unit :=
  ⟨env.toText sample, sampleCluster, (), 0⟩

/-- The deletion with the id 1 as the key 7 has signed it. -/
def sampleGenuine : CommandEnvelope := signEnvelope sample (7 : UInt8) (sampleDeletePod ⟨1⟩)

/-- An unsigned message, and the signed deletion after it. -/
def sampleArrivals (forged : Uuid) : List (Arrival Unit) :=
  [⟨sampleDelivery (sampleDeletePod forged), true⟩, ⟨sampleDelivery sampleGenuine, false⟩]

theorem envelope_sampleDelivery (env : CommandEnvelope) :
    (sampleDelivery env).envelope sampleParseTime = some env :=
  CommandEnvelope.fromText_toText sampleParseTime_sampleRfc3339 env

theorem verifyEnvelopeWith_sampleGenuine :
    verifyEnvelopeWith sample (Keyring.single (7 : UInt8)) sampleGenuine noon = .ok () := by
  have hnow : noon ≤ sampleGenuine.expiresAt := by decide
  have hselect : (Keyring.single (P := sample) (7 : UInt8)).select sampleGenuine.kid =
      some (7 : UInt8) := by
    simp [Keyring.select, Keyring.get, Keyring.single, sampleGenuine, signEnvelope, stamp]
  have hsigned : SignedBy sample (7 : UInt8) sampleGenuine :=
    signedBy_signEnvelope (P := sample) (7 : UInt8) (sampleDeletePod ⟨1⟩)
  have hsig : verifySignature sample (7 : UInt8) sampleGenuine = .ok () :=
    verifySignature_of_signedBy sample_ed25519.toKeysTold hsigned
  exact verifyEnvelopeWith_eq_ok.mpr ⟨_, hselect, hsig, hnow⟩

theorem verifies_sampleGenuine :
    verifies sample (Keyring.single (7 : UInt8)) sampleGenuine noon = true := by
  rw [verifies, verifyEnvelopeWith_sampleGenuine]
  rfl

theorem not_verifies_sampleDeletePod (key : UInt8) (id : Uuid) :
    verifies sample (Keyring.single key) (sampleDeletePod id) noon = false := by
  have hdefault : (Keyring.single (P := sample) key).select none = some key := by
    simp [Keyring.select, Keyring.defaultKey, Keyring.single]
  have hkid : (sampleDeletePod id).kid = none := rfl
  have hsig : (sampleDeletePod id).sig = none := rfl
  simp [verifies, verifyEnvelopeWith, hkid, hdefault, verifySignature, hsig, Except.isOk,
    Except.toBool]

theorem sampleArrivals_unauthenticated (forged : Uuid) :
    ∀ a ∈ sampleArrivals forged, a.inserted = true →
      a.delivery.Unauthenticated sample sampleParseTime (Keyring.single (7 : UInt8)) := by
  intro a ha hins env henv
  obtain rfl | ha := List.mem_cons.mp ha
  · cases (envelope_sampleDelivery _).symm.trans henv
    exact not_verifies_sampleDeletePod 7 forged
  · rw [List.mem_singleton.mp ha] at hins
    cases hins

end Platform

open Platform in
/-- A message with an id of its own changes nothing. -/
theorem executedCommands_eq_sample :
    executedCommands sample sampleParseTime (Keyring.single (7 : UInt8))
        (delivered (sampleArrivals ⟨5⟩)) =
      executedCommands sample sampleParseTime (Keyring.single (7 : UInt8))
        (genuine (sampleArrivals ⟨5⟩)) := by
  refine (executedCommands_eq_iff sample sampleParseTime (Keyring.single (7 : UInt8))
    (sampleArrivals ⟨5⟩) (sampleArrivals_unauthenticated ⟨5⟩)).mpr ?_
  have hforged : sampleGenuine.commandId ∉ [(sampleDeletePod ⟨5⟩).commandId] := by decide
  have hnew : ¬(sampleGenuine.commandId ∈ [] ∨ verifies sample (Keyring.single (7 : UInt8))
      sampleGenuine (sampleDelivery sampleGenuine).now = false) := by
    rintro (hmem | hfalse)
    · cases hmem
    · exact absurd (verifies_sampleGenuine.symm.trans hfalse) (by decide)
  rw [sampleArrivals, notForestalled_inserted (envelope_sampleDelivery _),
    notForestalled_new (envelope_sampleDelivery _) hnew]
  exact ⟨hforged, fun _ => trivial⟩

open Platform in
/-- The unsigned message carries the id of the signed deletion, and the pod is not deleted. -/
theorem forged_id_suppresses_command :
    (∀ a ∈ sampleArrivals ⟨1⟩, a.inserted = true →
      a.delivery.Unauthenticated sample sampleParseTime (Keyring.single (7 : UInt8))) ∧
    executedCommands sample sampleParseTime (Keyring.single (7 : UInt8))
        (delivered (sampleArrivals ⟨1⟩)) ≠
      executedCommands sample sampleParseTime (Keyring.single (7 : UInt8))
        (genuine (sampleArrivals ⟨1⟩)) := by
  have hfull : executedCommands sample sampleParseTime (Keyring.single (7 : UInt8))
      (delivered (sampleArrivals ⟨1⟩)) = [] := by
    change executedFrom sample sampleParseTime (Keyring.single (7 : UInt8)) []
      [sampleDelivery (sampleDeletePod ⟨1⟩), sampleDelivery sampleGenuine] = []
    rw [executedFrom_skip (envelope_sampleDelivery _) (.inr (not_verifies_sampleDeletePod 7 ⟨1⟩)),
      executedFrom_skip (envelope_sampleDelivery _) (.inl (by decide))]
    rfl
  have hgenuine : executedCommands sample sampleParseTime (Keyring.single (7 : UInt8))
      (genuine (sampleArrivals ⟨1⟩)) ≠ [] := by
    change executedFrom sample sampleParseTime (Keyring.single (7 : UInt8)) []
      [sampleDelivery sampleGenuine] ≠ []
    rw [executedFrom_new (envelope_sampleDelivery _) List.not_mem_nil verifies_sampleGenuine]
    exact List.cons_ne_nil _ _
  refine ⟨sampleArrivals_unauthenticated ⟨1⟩, fun heq => hgenuine ?_⟩
  rw [← heq, hfull]

end Ravn
