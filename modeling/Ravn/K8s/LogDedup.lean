import Ravn.Theory.Lru

/-! The log deduper of the pod log scraper: for each pod a least-recently-used cache of line hashes with
the time each was last emitted. A line is suppressed exactly if its hash was emitted less than the ttl
ago and fewer other hashes than the cache holds were looked up since its own last lookup. -/

namespace Ravn

open Theory

/-- A reading of the monotonic clock, in nanoseconds. -/
abbrev Instant := Nat

/-- The time since an earlier reading; zero if that one is the later of the two. -/
def Instant.durationSince (t earlier : Instant) : Nat := t - earlier

/-- `lru::LruCache<u64, Instant>`, as far as it is used. -/
structure LruCache where
  Cache : Type
  new : Nat → Cache
  getMut : Cache → UInt64 → Option Instant × Cache
  put : Cache → UInt64 → Instant → Cache
  len : Cache → Nat

/-- The caches are standard least-recently-used maps, in which `getMut` and `put` both refresh recency. -/
structure LruCache.Standard (L : LruCache) where
  view : L.Cache → Lru UInt64 Instant
  view_new : 0 < cap → view (L.new cap) = Lru.new cap
  view_getMut : view (L.getMut c h).2 = ((view c).get h).2
  getMut_eq : (L.getMut c h).1 = ((view c).get h).1
  view_put : view (L.put c h t) = (view c).put h t
  len_eq : L.len c = (view c).entries.length

/-- The `match` of `is_new` on the cache of the pod. -/
def LruCache.isNew (L : LruCache) (ttl : Nat) (cache : L.Cache) (hash : UInt64) (now : Instant) :
    Bool × L.Cache :=
  match L.getMut cache hash with
  | (some seenAt, cache) =>
    if now.durationSince seenAt < ttl then (false, cache) else (true, L.put cache hash now)
  | (none, cache) => (true, L.put cache hash now)

structure LogDeduper (L : LruCache) where
  perPodCap : Nat
  perPodCap_pos : 0 < perPodCap
  ttl : Nat
  pods : String → Option L.Cache

/-- A call on the deduper. -/
inductive LogCall where
  | isNew (podKey line : String) (now : Instant)
  | removePod (podKey : String)
deriving DecidableEq

def LogCall.podKey : LogCall → String
  | isNew podKey _ _ => podKey
  | removePod podKey => podKey

/-- The clock's reading at a call that reads it. -/
def LogCall.time : LogCall → Option Instant
  | isNew _ _ now => some now
  | removePod _ => none

/-- The clock never goes back from one call to a later one. -/
def ClockInOrder (calls : List LogCall) : Prop := (calls.filterMap LogCall.time).Pairwise (· ≤ ·)

namespace LogDeduper

variable {L : LruCache}

/-- `LogDeduper::new`; `none` where it panics. -/
def new (perPodCap ttl : Nat) : Option (LogDeduper L) :=
  if h : 0 < perPodCap then some ⟨perPodCap, h, ttl, fun _ => none⟩ else none

section

variable (hashLine : String → UInt64) (d : LogDeduper L)

/-- The cache of a pod, made on its first use. -/
def cacheOf (podKey : String) : L.Cache := (d.pods podKey).getD (L.new d.perPodCap)

def setCache (podKey : String) (cache : L.Cache) : LogDeduper L :=
  { d with pods := fun k => if k = podKey then some cache else d.pods k }

/-- `LogDeduper::is_new`, with the time that it reads. -/
def isNew (podKey line : String) (now : Instant) : Bool × LogDeduper L :=
  let r := L.isNew d.ttl (d.cacheOf podKey) (hashLine line) now
  (r.1, d.setCache podKey r.2)

def removePod (podKey : String) : LogDeduper L :=
  { d with pods := fun k => if k = podKey then none else d.pods k }

def step : LogCall → LogDeduper L
  | .isNew podKey line now => (d.isNew hashLine podKey line now).2
  | .removePod podKey => d.removePod podKey

def after (calls : List LogCall) : LogDeduper L := calls.foldl (fun d call => d.step hashLine call) d

/-- A line with the hash was emitted for the pod at time `t`, and the pod was not removed since. -/
def Emitted (calls : List LogCall) (podKey : String) (hash : UInt64) (t : Instant) : Prop :=
  ∃ pre line post, calls = pre ++ .isNew podKey line t :: post ∧ hashLine line = hash ∧
    ((d.after hashLine pre).isNew hashLine podKey line t).1 = true ∧ .removePod podKey ∉ post

end

end LogDeduper

section

variable (hashLine : String → UInt64)

/-- The hash that a call looks up for a pod. -/
def LogCall.lookup (podKey : String) : LogCall → Option UInt64
  | isNew k line _ => if k = podKey then some (hashLine line) else none
  | removePod _ => none

/-- The hashes looked up for a pod, in order. -/
def lookups (podKey : String) (calls : List LogCall) : List UInt64 :=
  calls.filterMap (LogCall.lookup hashLine podKey)

/-- The other hashes looked up for a pod since a hash was last looked up. -/
def othersSince (podKey : String) (hash : UInt64) (calls : List LogCall) : Finset UInt64 :=
  ((lookups hashLine podKey calls).rtakeWhile (· != hash)).toFinset

end

/-! ## One lookup -/

namespace LruCache.Standard

variable {L : LruCache} (S : L.Standard)

/-- What one lookup answers and makes of a cache: the hash is there and fresh, there and stale, or not
there. -/
theorem isNew_cases (c : L.Cache) (ttl : Nat) (h : UInt64) (now : Instant) :
    (∃ seenAt, (S.view c).entries.lookup h = some seenAt ∧ now.durationSince seenAt < ttl ∧
      (L.isNew ttl c h now).1 = false ∧
        S.view (L.isNew ttl c h now).2 = (S.view c).use h seenAt) ∨
    (∃ seenAt, (S.view c).entries.lookup h = some seenAt ∧ ¬now.durationSince seenAt < ttl ∧
      (L.isNew ttl c h now).1 = true ∧
        S.view (L.isNew ttl c h now).2 = ((S.view c).use h seenAt).use h now) ∨
    (S.view c).entries.lookup h = none ∧ (L.isNew ttl c h now).1 = true ∧
      S.view (L.isNew ttl c h now).2 = (S.view c).use h now := by
  have hview := S.view_getMut (c := c) (h := h)
  have hseen := S.getMut_eq (c := c) (h := h)
  unfold LruCache.isNew
  generalize L.getMut c h = r at hview hseen ⊢
  obtain ⟨seen, cache⟩ := r
  cases hfind : (S.view c).entries.lookup h with
  | some seenAt =>
    simp only [Lru.get, hfind] at hview hseen
    subst hseen
    by_cases hlt : now.durationSince seenAt < ttl
    · refine .inl ⟨seenAt, rfl, hlt, ?_, ?_⟩
      · simp only [hlt, if_true]
      · simpa only [hlt, if_true] using hview
    · refine .inr (.inl ⟨seenAt, rfl, hlt, ?_, ?_⟩)
      · simp only [hlt, if_false]
      · simp only [hlt, if_false, S.view_put, hview, Lru.put]
  | none =>
    simp only [Lru.get, hfind] at hview hseen
    subst hseen
    exact .inr (.inr ⟨rfl, rfl, by simp only [S.view_put, hview, Lru.put]⟩)

theorem cap_isNew (c : L.Cache) (ttl : Nat) (h : UInt64) (now : Instant) :
    (S.view (L.isNew ttl c h now).2).cap = (S.view c).cap := by
  obtain ⟨_, -, -, -, hview⟩ | ⟨_, -, -, -, hview⟩ | ⟨-, -, hview⟩ := S.isNew_cases c ttl h now
  · rw [hview, Lru.cap_use]
  · rw [hview, Lru.cap_use, Lru.cap_use]
  · rw [hview, Lru.cap_use]

/-- What one lookup does to a cache, and when it suppresses. -/
theorem isNew {c : L.Cache}
    {hist : List UInt64} (htracks : (S.view c).Tracks hist)
    (ttl : Nat) (h : UInt64) (now : Instant) :
    (S.view (L.isNew ttl c h now).2).Tracks (hist ++ [h]) ∧
      ((L.isNew ttl c h now).1 = false ↔
        ∃ seenAt, (h, seenAt) ∈ (S.view c).entries ∧ now.durationSince seenAt < ttl) ∧
      ∀ e ∈ (S.view (L.isNew ttl c h now).2).entries,
        (e ∈ (S.view c).entries ∧ (e.1 = h → (L.isNew ttl c h now).1 = false)) ∨
          (e = (h, now) ∧ (L.isNew ttl c h now).1 = true) := by
  simp only [← Lru.lookup_eq_some]
  obtain ⟨seenAt, hfind, hlt, hold, hview⟩ | ⟨seenAt, hfind, hlt, hnew, hview⟩ |
    ⟨hfind, hnew, hview⟩ := S.isNew_cases c ttl h now
  · rw [hold, hview, hfind]
    refine ⟨htracks.use h seenAt, ⟨fun _ => ⟨seenAt, rfl, hlt⟩, fun _ => rfl⟩, fun e he => .inl ?_⟩
    obtain rfl | ⟨-, he⟩ := Lru.mem_use he
    · exact ⟨Lru.lookup_eq_some.mp hfind, fun _ => rfl⟩
    · exact ⟨he, fun _ => rfl⟩
  · rw [hnew, hview, hfind]
    refine ⟨?_, ⟨fun hfalse => ?_, ?_⟩, fun e he => ?_⟩
    · have htwice := (htracks.use h seenAt).use h now
      rwa [Lru.Tracks, lastUses_snoc_snoc] at htwice
    · cases hfalse
    · rintro ⟨t, ht, hfresh⟩
      exact absurd (Option.some.inj ht ▸ hfresh) hlt
    · obtain rfl | ⟨hne, he⟩ := Lru.mem_use he
      · exact .inr ⟨rfl, rfl⟩
      · obtain rfl | ⟨-, he⟩ := Lru.mem_use he
        · exact absurd rfl hne
        · exact .inl ⟨he, fun h => absurd h hne⟩
  · rw [hnew, hview, hfind]
    refine ⟨htracks.use h now, ⟨fun hfalse => ?_, ?_⟩, fun e he => ?_⟩
    · cases hfalse
    · rintro ⟨t, ht, -⟩
      cases ht
    · obtain rfl | ⟨hne, he⟩ := Lru.mem_use he
      · exact .inr ⟨rfl, rfl⟩
      · exact .inl ⟨he, fun h => absurd h hne⟩

end LruCache.Standard

namespace LogDeduper

variable {L : LruCache} {hashLine : String → UInt64} {d : LogDeduper L} {cap ttl : Nat}

@[simp] theorem after_nil : d.after hashLine [] = d := rfl

@[simp] theorem after_snoc (calls : List LogCall) (call : LogCall) :
    d.after hashLine (calls ++ [call]) = (d.after hashLine calls).step hashLine call := by
  simp [after]

/-! ## One call -/

/-- A call leaves the settings and the caches of the other pods as they are. -/
theorem step_frame (hashLine : String → UInt64) (d : LogDeduper L) (call : LogCall) :
    (d.step hashLine call).perPodCap = d.perPodCap ∧ (d.step hashLine call).ttl = d.ttl ∧
      ∀ k, k ≠ call.podKey → (d.step hashLine call).pods k = d.pods k := by
  cases call with
  | isNew podKey line now => exact ⟨rfl, rfl, fun k hk => if_neg hk⟩
  | removePod podKey => exact ⟨rfl, rfl, fun k hk => if_neg hk⟩

theorem after_settings (hashLine : String → UInt64) (d : LogDeduper L) (calls : List LogCall) :
    (d.after hashLine calls).perPodCap = d.perPodCap ∧ (d.after hashLine calls).ttl = d.ttl := by
  induction calls using List.reverseRecOn with
  | nil => exact ⟨rfl, rfl⟩
  | append_singleton calls call ih =>
    rw [after_snoc]
    have hframe := step_frame hashLine (d.after hashLine calls) call
    exact ⟨hframe.1.trans ih.1, hframe.2.1.trans ih.2⟩

/-- What a call on a pod returns and leaves there depends on that pod's cache and the settings only. -/
theorem isNew_congr {d' : LogDeduper L} (hcap : d.perPodCap = d'.perPodCap) (httl : d.ttl = d'.ttl)
    (hpods : d.pods podKey = d'.pods podKey) (line : String) (now : Instant) :
    (d.isNew hashLine podKey line now).1 = (d'.isNew hashLine podKey line now).1 ∧
      (d.isNew hashLine podKey line now).2.pods podKey =
        (d'.isNew hashLine podKey line now).2.pods podKey := by
  have hcache : d.cacheOf podKey = d'.cacheOf podKey := by
    rw [cacheOf, cacheOf, hpods, hcap]
  have hlookup : L.isNew d.ttl (d.cacheOf podKey) (hashLine line) now =
      L.isNew d'.ttl (d'.cacheOf podKey) (hashLine line) now := by
    rw [hcache, httl]
  refine ⟨congrArg (fun r : Bool × L.Cache => r.1) hlookup, ?_⟩
  exact (if_pos rfl).trans ((congrArg (fun r => some r.2) hlookup).trans (if_pos rfl).symm)

/-- The pod's cache is what the calls on that pod alone make of it. -/
theorem pods_after_filter (calls : List LogCall) (podKey : String) :
    (d.after hashLine calls).pods podKey =
      (d.after hashLine (calls.filter (·.podKey == podKey))).pods podKey := by
  induction calls using List.reverseRecOn with
  | nil => rfl
  | append_singleton calls call ih =>
    rw [List.filter_append, after_snoc]
    by_cases hpod : call.podKey = podKey
    · have hfilter : [call].filter (·.podKey == podKey) = [call] :=
        List.filter_eq_self.mpr (by simpa using hpod)
      rw [hfilter, after_snoc]
      obtain ⟨hcap, httl⟩ := after_settings hashLine d calls
      obtain ⟨hcap', httl'⟩ :=
        after_settings hashLine d (calls.filter (·.podKey == podKey))
      cases call with
      | isNew k line now =>
        obtain rfl : k = podKey := hpod
        exact (isNew_congr (hcap.trans hcap'.symm) (httl.trans httl'.symm) ih line now).2
      | removePod k =>
        obtain rfl : k = podKey := hpod
        exact (if_pos rfl).trans (if_pos rfl).symm
    · have hfilter : [call].filter (·.podKey == podKey) = [] :=
        List.filter_eq_nil_iff.mpr (by simpa using hpod)
      rw [hfilter, List.append_nil, (step_frame hashLine _ call).2.2 podKey fun h => hpod h.symm,
        ih]

/-- The answer to a call on a pod is the one that the calls on that pod alone lead to. -/
theorem isNew_after_filter (calls : List LogCall) (podKey line : String) (now : Instant) :
    ((d.after hashLine calls).isNew hashLine podKey line now).1 =
      ((d.after hashLine (calls.filter (·.podKey == podKey))).isNew hashLine podKey line now).1 := by
  obtain ⟨hcap, httl⟩ := after_settings hashLine d calls
  obtain ⟨hcap', httl'⟩ :=
    after_settings hashLine d (calls.filter (·.podKey == podKey))
  exact (isNew_congr (hcap.trans hcap'.symm) (httl.trans httl'.symm)
    (pods_after_filter calls podKey) line now).1

theorem cacheOf_step_isNew (podKey line : String) (now : Instant) :
    (d.step hashLine (.isNew podKey line now)).cacheOf podKey =
      (L.isNew d.ttl (d.cacheOf podKey) (hashLine line) now).2 := by
  simp [step, isNew, setCache, cacheOf]

theorem cacheOf_step_removePod (podKey : String) :
    (d.step hashLine (.removePod podKey)).cacheOf podKey = L.new d.perPodCap := by
  simp [step, removePod, cacheOf]

theorem cacheOf_step_of_ne {call : LogCall} (h : call.podKey ≠ podKey) :
    (d.step hashLine call).cacheOf podKey = d.cacheOf podKey := by
  obtain ⟨hcap, -, hpods⟩ := step_frame hashLine d call
  rw [cacheOf, cacheOf, hcap, hpods podKey fun he => h he.symm]

theorem of_new (h : new cap ttl = some d) :
    0 < cap ∧ d.perPodCap = cap ∧ d.ttl = ttl ∧ ∀ podKey, d.pods podKey = none := by
  unfold new at h
  split at h
  · cases h
    exact ⟨‹_›, rfl, rfl, fun _ => rfl⟩
  · cases h

/-! ## What was emitted -/

/-- One more call adds what it emits, or takes the pod's emissions with the pod. -/
theorem emitted_snoc {calls : List LogCall} {call : LogCall} {hash : UInt64} :
    d.Emitted hashLine (calls ++ [call]) podKey hash t ↔
      (d.Emitted hashLine calls podKey hash t ∧ call ≠ .removePod podKey) ∨
        ∃ line, call = .isNew podKey line t ∧ hashLine line = hash ∧
          ((d.after hashLine calls).isNew hashLine podKey line t).1 = true := by
  constructor
  · rintro ⟨pre, line, post, hcalls, hhash, hnew, hpost⟩
    obtain rfl | ⟨post, last, rfl⟩ := post.eq_nil_or_concat
    · obtain ⟨rfl, hlast⟩ := List.append_inj' hcalls rfl
      cases hlast
      exact .inr ⟨line, rfl, hhash, hnew⟩
    · rw [List.concat_eq_append, ← List.cons_append, ← List.append_assoc] at hcalls
      obtain ⟨rfl, hlast⟩ := List.append_inj' hcalls rfl
      cases hlast
      rw [List.concat_eq_append, List.mem_append, not_or, List.mem_singleton] at hpost
      exact .inl ⟨⟨pre, line, post, rfl, hhash, hnew, hpost.1⟩, fun h => hpost.2 h.symm⟩
  · rintro (⟨⟨pre, line, post, rfl, hhash, hnew, hpost⟩, hcall⟩ | ⟨line, rfl, hhash, hnew⟩)
    · refine ⟨pre, line, post ++ [call], by simp, hhash, hnew, ?_⟩
      rw [List.mem_append, not_or, List.mem_singleton]
      exact ⟨hpost, fun h => hcall h.symm⟩
    · exact ⟨calls, line, [], rfl, hhash, hnew, List.not_mem_nil⟩

theorem Emitted.le_of_monotone {hash : UInt64} (h : d.Emitted hashLine calls podKey hash t)
    (hmono : ClockInOrder (calls ++ [.isNew podKey' line now])) : t ≤ now := by
  obtain ⟨pre, line', post, rfl, -⟩ := h
  rw [ClockInOrder, List.filterMap_append, List.pairwise_append] at hmono
  exact hmono.2.2 t (by simp [LogCall.time]) now (by simp [LogCall.time])

/-! ## What a cache remembers -/

/-- The cache of a pod after the calls: the hashes looked up since the pod was last removed, in order
of their last use, each with the time of its last emission. -/
structure Remembers (d : LogDeduper L) (hashLine : String → UInt64) (calls : List LogCall)
    (podKey : String) (m : Lru UInt64 Instant) : Prop where
  tracks : m.Tracks (lookups hashLine podKey (calls.rtakeWhile (· != .removePod podKey)))
  emitted : ∀ h t, (h, t) ∈ m.entries → d.Emitted hashLine calls podKey h t
  latest : ∀ h t t', (h, t) ∈ m.entries → d.Emitted hashLine calls podKey h t' → t' ≤ t

section

variable (S : L.Standard)

theorem cap_view_cacheOf (hnew : new cap ttl = some d) (calls : List LogCall) (podKey : String) :
    (S.view ((d.after hashLine calls).cacheOf podKey)).cap = cap := by
  obtain ⟨hpos, hcap, -, hpods⟩ := of_new hnew
  have hfresh : (S.view (L.new cap)).cap = cap := by rw [S.view_new hpos, Lru.cap_new]
  induction calls using List.reverseRecOn with
  | nil =>
    rw [after_nil, cacheOf, hpods, Option.getD_none, hcap]
    exact hfresh
  | append_singleton calls call ih =>
    rw [after_snoc]
    by_cases hpod : call.podKey = podKey
    · subst hpod
      cases call with
      | isNew podKey line now =>
        rw [LogCall.podKey, cacheOf_step_isNew, S.cap_isNew]
        exact ih
      | removePod podKey =>
        rw [LogCall.podKey, cacheOf_step_removePod, (after_settings hashLine d calls).1, hcap]
        exact hfresh
    · rw [cacheOf_step_of_ne hpod]
      exact ih

/-- Calls on other pods leave what a cache remembers as it is. -/
theorem Remembers.snoc_of_ne (h : Remembers d hashLine calls podKey m) (hne : call.podKey ≠ podKey) :
    Remembers d hashLine (calls ++ [call]) podKey m := by
  have hcall : call ≠ .removePod podKey := fun he => hne (he ▸ rfl)
  have hiff : ∀ {hash t}, d.Emitted hashLine (calls ++ [call]) podKey hash t ↔
      d.Emitted hashLine calls podKey hash t := by
    intro hash t
    rw [emitted_snoc]
    constructor
    · rintro (⟨hold, -⟩ | ⟨line, rfl, -⟩)
      · exact hold
      · exact absurd rfl hne
    · exact fun hold => .inl ⟨hold, hcall⟩
  refine ⟨?_, fun hash t he => hiff.mpr (h.emitted hash t he),
    fun hash t t' he ht' => h.latest hash t t' he (hiff.mp ht')⟩
  have hlookup : call.lookup hashLine podKey = none := by
    cases call with
    | isNew k line now => exact if_neg hne
    | removePod k => rfl
  have hkept := List.rtakeWhile_concat_pos (· != LogCall.removePod podKey) calls call
    (bne_iff_ne.mpr hcall)
  rw [hkept, lookups, List.filterMap_append, List.filterMap_cons_none hlookup, List.filterMap_nil,
    List.append_nil]
  exact h.tracks

/-- The cache of a pod that was removed, or not looked up at all. -/
theorem Remembers.new (h : calls.rtakeWhile (· != .removePod podKey) = []) (cap : Nat) :
    Remembers d hashLine calls podKey (Lru.new cap) where
  tracks := by
    rw [h]
    exact Lru.Tracks.new cap
  emitted _ _ he := absurd he List.not_mem_nil
  latest _ _ _ he := absurd he List.not_mem_nil

/-- A lookup on the pod. -/
theorem Remembers.snoc_isNew
    (h : Remembers d hashLine calls podKey (S.view ((d.after hashLine calls).cacheOf podKey)))
    (hmono : ClockInOrder (calls ++ [.isNew podKey line now])) :
    Remembers d hashLine (calls ++ [.isNew podKey line now]) podKey
      (S.view (L.isNew (d.after hashLine calls).ttl ((d.after hashLine calls).cacheOf podKey)
        (hashLine line) now).2) := by
  obtain ⟨htracks, -, hentries⟩ :=
    S.isNew h.tracks (d.after hashLine calls).ttl (hashLine line) now
  refine ⟨?_, fun hash t he => ?_, fun hash t t' he ht' => ?_⟩
  · rw [List.rtakeWhile_concat_pos _ _ _ rfl, lookups, List.filterMap_append]
    simpa [lookups, LogCall.lookup] using htracks
  · obtain ⟨hold, -⟩ | ⟨heq, hnew⟩ := hentries _ he
    · exact emitted_snoc.mpr (.inl ⟨h.emitted hash t hold, nofun⟩)
    · cases heq
      exact emitted_snoc.mpr (.inr ⟨line, rfl, rfl, hnew⟩)
  · obtain ⟨hemitted, -⟩ | ⟨line', hcall, rfl, hnew⟩ := emitted_snoc.mp ht'
    · obtain ⟨hold, -⟩ | ⟨heq, -⟩ := hentries _ he
      · exact h.latest hash t t' hold hemitted
      · cases heq
        exact hemitted.le_of_monotone hmono
    · cases hcall
      obtain ⟨-, hfalse⟩ | ⟨heq, -⟩ := hentries _ he
      · cases hnew.symm.trans (hfalse rfl)
      · cases heq
        exact Nat.le_refl _

theorem remembers (hnew : new cap ttl = some d) (hmono : ClockInOrder calls) (podKey : String) :
    Remembers d hashLine calls podKey (S.view ((d.after hashLine calls).cacheOf podKey)) := by
  obtain ⟨hpos, hcap, -, hpods⟩ := of_new hnew
  induction calls using List.reverseRecOn with
  | nil =>
    have hempty : S.view (d.cacheOf podKey) = Lru.new cap := by
      rw [cacheOf, hpods, Option.getD_none, hcap, S.view_new hpos]
    rw [after_nil, hempty]
    exact .new rfl cap
  | append_singleton calls call ih =>
    have hprev : ClockInOrder calls := by
      rw [ClockInOrder, List.filterMap_append, List.pairwise_append] at hmono
      exact hmono.1
    have ih := ih hprev
    rw [after_snoc]
    by_cases hpod : call.podKey = podKey
    · subst hpod
      cases call with
      | isNew podKey line now =>
        rw [LogCall.podKey] at ih ⊢
        rw [cacheOf_step_isNew]
        exact ih.snoc_isNew S hmono
      | removePod podKey =>
        have hsettings := after_settings hashLine d calls
        rw [LogCall.podKey, cacheOf_step_removePod, hsettings.1, hcap, S.view_new hpos]
        exact .new (List.rtakeWhile_concat_neg _ _ _ (by simp)) cap
    · rw [cacheOf_step_of_ne hpod]
      exact ih.snoc_of_ne hpod

end

theorem Emitted.mem_lookups {h : UInt64} (hemitted : d.Emitted hashLine calls podKey h t) :
    h ∈ lookups hashLine podKey (calls.rtakeWhile (· != .removePod podKey)) := by
  induction calls using List.reverseRecOn with
  | nil =>
    obtain ⟨pre, line, post, hcalls, -⟩ := hemitted
    simp at hcalls
  | append_singleton calls call ih =>
    obtain ⟨hold, hcall⟩ | ⟨line, rfl, rfl, -⟩ := emitted_snoc.mp hemitted
    · have hkept := List.rtakeWhile_concat_pos (· != LogCall.removePod podKey) calls call
        (bne_iff_ne.mpr hcall)
      rw [hkept, lookups, List.filterMap_append]
      exact List.mem_append_left _ (ih hold)
    · have hkept := List.rtakeWhile_concat_pos (· != LogCall.removePod podKey) calls
        (.isNew podKey line t) rfl
      rw [hkept, lookups, List.filterMap_append]
      exact List.mem_append_right _ (by simp [LogCall.lookup])

/-- The lookups before the removal of the pod do not count for a hash that was looked up after it. -/
theorem othersSince_eq {h : UInt64}
    (hmem : h ∈ lookups hashLine podKey (calls.rtakeWhile (· != .removePod podKey))) :
    othersSince hashLine podKey h calls =
      ((lookups hashLine podKey (calls.rtakeWhile (· != .removePod podKey))).rtakeWhile
        (· != h)).toFinset := by
  have hcalls : calls.rdropWhile (· != .removePod podKey) ++
      calls.rtakeWhile (· != .removePod podKey) = calls := List.rdropWhile_append_rtakeWhile
  have hlookups : lookups hashLine podKey calls =
      lookups hashLine podKey (calls.rdropWhile (· != .removePod podKey)) ++
        lookups hashLine podKey (calls.rtakeWhile (· != .removePod podKey)) := by
    rw [lookups, lookups, lookups, ← List.filterMap_append, hcalls]
  rw [othersSince, hlookups, rtakeWhile_append_of_mem hmem (by simp)]

/-- A line is suppressed exactly if its hash was emitted for the pod less than the ttl ago, the pod was
not removed since, and fewer other hashes than the cache holds were looked up since its own last
lookup. -/
theorem isNew_eq_false_iff (S : L.Standard) (hnew : new cap ttl = some d) {podKey line : String}
    {now : Instant} (hmono : ClockInOrder (calls ++ [.isNew podKey line now])) :
    ((d.after hashLine calls).isNew hashLine podKey line now).1 = false ↔
      ∃ t, d.Emitted hashLine calls podKey (hashLine line) t ∧ now.durationSince t < ttl ∧
        (othersSince hashLine podKey (hashLine line) calls).card < cap := by
  have hprev : ClockInOrder calls := by
    rw [ClockInOrder, List.filterMap_append, List.pairwise_append] at hmono
    exact hmono.1
  have hremembers : Remembers d hashLine calls podKey _ := remembers S hnew hprev podKey
  obtain ⟨-, hsuppress, -⟩ :=
    S.isNew hremembers.tracks (d.after hashLine calls).ttl (hashLine line) now
  have hcard := hremembers.tracks.mem_keys_iff (k := hashLine line)
  rw [cap_view_cacheOf S hnew] at hcard
  obtain ⟨-, -, httl, -⟩ := of_new hnew
  rw [(after_settings hashLine d calls).2, httl] at hsuppress
  refine Iff.trans ?_ (hsuppress.trans ⟨?_, ?_⟩)
  · rw [isNew, (after_settings hashLine d calls).2, httl]
  · rintro ⟨seenAt, hseen, hlt⟩
    have hemitted := hremembers.emitted _ _ hseen
    refine ⟨seenAt, hemitted, hlt, ?_⟩
    rw [othersSince_eq hemitted.mem_lookups]
    exact (hcard.mp (Lru.mem_keys.mpr ⟨seenAt, hseen⟩)).2
  · rintro ⟨t, hemitted, hlt, hothers⟩
    rw [othersSince_eq hemitted.mem_lookups] at hothers
    obtain ⟨seenAt, hseen⟩ := Lru.mem_keys.mp (hcard.mpr ⟨hemitted.mem_lookups, hothers⟩)
    have hle := hremembers.latest _ _ t hseen hemitted
    exact ⟨seenAt, hseen, Nat.lt_of_le_of_lt (Nat.sub_le_sub_left hle now) hlt⟩

end LogDeduper

/-- After any calls on a fresh deduper every pod's cache is within the cap, and under a clock that
never goes back the next call suppresses a line exactly if its hash was emitted for the pod since the
pod was last removed and less than the ttl ago, with fewer than the cap of other hashes looked up since
its own last lookup. Calls on other pods make no difference to the answer. -/
theorem logDeduper_bounded_isolated_sound {L : LruCache} (S : L.Standard) (hashLine : String → UInt64)
    {perPodCap ttl : Nat} {d : LogDeduper L} (hnew : LogDeduper.new perPodCap ttl = some d)
    (calls : List LogCall) :
    (∀ podKey cache, (d.after hashLine calls).pods podKey = some cache → L.len cache ≤ perPodCap) ∧
      ∀ podKey line now, ClockInOrder (calls ++ [.isNew podKey line now]) →
        (((d.after hashLine calls).isNew hashLine podKey line now).1 = false ↔
          ∃ t, d.Emitted hashLine calls podKey (hashLine line) t ∧ now.durationSince t < ttl ∧
            (othersSince hashLine podKey (hashLine line) calls).card < perPodCap) ∧
        ((d.after hashLine calls).isNew hashLine podKey line now).1 =
          ((d.after hashLine (calls.filter (·.podKey == podKey))).isNew hashLine podKey line
            now).1 := by
  refine ⟨fun podKey cache hcache => ?_, fun podKey line now hmono => ⟨?_, ?_⟩⟩
  · have hcap : (S.view ((d.after hashLine calls).cacheOf podKey)).cap = perPodCap :=
      LogDeduper.cap_view_cacheOf S hnew calls podKey
    rw [LogDeduper.cacheOf, hcache, Option.getD_some] at hcap
    rw [S.len_eq, ← hcap]
    exact (S.view cache).length_le
  · exact LogDeduper.isNew_eq_false_iff S hnew hmono
  · exact LogDeduper.isNew_after_filter calls podKey line now

/-- The standard map as a crate. -/
def LruCache.ofLru : LruCache := ⟨Lru UInt64 Instant, Lru.new, Lru.get, Lru.put, (·.entries.length)⟩

def LruCache.standard_ofLru : ofLru.Standard where
  view := fun m => m
  view_new := fun _ => rfl
  view_getMut := rfl
  getMut_eq := rfl
  view_put := rfl
  len_eq := rfl

/-- A line is emitted, another line of the same length is looked up within the ttl, and suppressed. -/
theorem logDeduper_bounded_isolated_sound_sample :
    ∃ d : LogDeduper LruCache.ofLru, LogDeduper.new 1 10 = some d ∧
      ((d.after (fun line => UInt64.ofNat line.length) [.isNew "web/api-0" "oom" 3]).isNew
        (fun line => UInt64.ofNat line.length) "web/api-0" "err" 7).1 = false := by
  have hnew : LogDeduper.new 1 10 =
      some (⟨1, Nat.one_pos, 10, fun _ => none⟩ : LogDeduper LruCache.ofLru) := rfl
  refine ⟨_, hnew, ?_⟩
  have h := logDeduper_bounded_isolated_sound LruCache.standard_ofLru
    (fun line => UInt64.ofNat line.length) hnew [.isNew "web/api-0" "oom" 3]
  refine (h.2 "web/api-0" "err" 7 ?_).1.mpr ⟨3, ?_, by decide, by decide⟩
  · simp [ClockInOrder, LogCall.time]
  · exact ⟨[], "oom", [], rfl, rfl, rfl, List.not_mem_nil⟩

end Ravn
