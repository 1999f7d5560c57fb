import GraphQuery.Proofs.HandOut
import Mathlib.Data.List.Nodup

/-! # Sessions

Streams are asked for in two ways: out of a source, by anyone who has a handle of it, and by
subscribing. However the two are mixed, and whatever else happens in between, the stream of a
channel is obtained at most once (`Session.handsOutOnce`). One request does this
(`Request.IsFair`): it obtains a stream that nobody had, or it takes none. -/

namespace GraphQuery

/-! ## Requests -/

/-- **A request for a stream.** -/
inductive Request where
  /-- Some handle of a source is asked for its stream. -/
  | take (id : Nat)
  /-- A field is subscribed to. -/
  | subscribe (executor : Executor) (source : Option Value) (field : Field) (given : Variables)
  /-- A source text is subscribed to. -/
  | subscribeText (executor : Executor) (text : String) (given : Variables)

/-- **What comes of a request.** -/
inductive Response where
  /-- Whether there was a stream to take. -/
  | took (taken : Bool)
  /-- A subscription was started, or not. -/
  | subscribed (result : Except ExecutionError Nat)

namespace Request

/-- **Serves a request.** -/
def serve : Request → Host → Response × Host
  | take id, host =>
    let (taken, host) := Host.onHub (Hub.takeStream id) host
    (.took taken, host)
  | subscribe executor source field given, host =>
    let (result, host) := executor.subscribe source field given host
    (.subscribed result, host)
  | subscribeText executor text given, host =>
    let (result, host) := executor.subscribeText text given host
    (.subscribed result, host)

/-- The channel whose stream was obtained. -/
def obtained? : Request → Response → Option Nat
  | take id, .took true => some id
  | _, .subscribed (.ok id) => some id
  | _, _ => none

/-- **The stream that is asked for.** A subscription asks for the one that its resolver answers. -/
def AsksFor (hub : Hub) : Request → Nat → Prop
  | take asked, id => asked = id
  | subscribe executor source field given, id =>
    executor.AnswersStream source field given hub id
  | subscribeText executor text given, id =>
    ∃ field, Executor.subscriptionField (Parsed.ofText text).document = .ok field ∧
      executor.AnswersStream none field given hub id

/-- Whether a request can be made: someone has a handle of the source that is asked, and resolvers
take no streams themselves. -/
def Admissible (hub : Hub) : Request → Prop
  | take id => ∃ c, hub.channels[id]? = some c ∧ c.sources ≠ 0
  | subscribe executor _ _ _ | subscribeText executor _ _ => executor.TakesNoStream

end Request

/-- Whether what was asked for had been taken. -/
def Response.IsLate : Response → Prop
  | took taken => taken = false
  | subscribed result => ∃ name, result = .error (.streamAlreadyTaken name)

namespace Request

/-- **A request is served fairly.** -/
structure IsFair (request : Request) (host : Host) : Prop where
  /-- What is obtained is what was asked for, and it is one that nobody had. -/
  success : ∀ id, request.obtained? (request.serve host).1 = some id →
    request.AsksFor host.hub id ∧ host.hub.TurnsFlag id (request.serve host).2.hub
  /-- A request that fails takes nothing. -/
  failure : request.obtained? (request.serve host).1 = none →
    host.hub.LeavesStreams (request.serve host).2.hub
  /-- It is too late for a stream exactly if it was taken before. -/
  late : (request.serve host).1.IsLate ↔
    ∃ id, request.AsksFor host.hub id ∧
      ∃ c, host.hub.channels[id]? = some c ∧ c.flag? = some true

/-- What comes of asking a source is what comes of asking the hub. -/
theorem serve_take {host : Host} {id : Nat} {taken : Bool} {hub : Hub}
    (h : Hub.takeStream id host.hub = (taken, hub)) :
    ((take id).serve host).1 = .took taken
      ∧ ((take id).serve host).2.hub.channels = hub.channels := by
  have hanswer : ((take id).serve host).1 = .took (Hub.takeStream id host.hub).1 := rfl
  have hchannels : ((take id).serve host).2.hub.channels
      = (Hub.takeStream id host.hub).2.channels := rfl
  rw [hanswer, hchannels, h]
  exact ⟨rfl, rfl⟩

/-- Taking a stream out of its source is fair. -/
theorem isFair_take {host : Host} {id : Nat} {c : Channel} (hc : host.hub.channels[id]? = some c)
    (hhandle : c.sources ≠ 0) : (take id).IsFair host := by
  have hreported := Channel.flag?_of_handle hhandle
  -- The stream is there and handed out now, or it is gone and was taken before.
  by_cases hheld : c.stream = .held
  · obtain ⟨htook, hchannels⟩ := serve_take (Hub.takeStream_of_held hc hheld)
    refine ⟨fun other hother => ?_, fun hnone => ?_, ?_⟩
    · rw [htook] at hother
      obtain rfl := Option.some.inj hother
      exact ⟨rfl, (Hub.LeavesStreams.refl host.hub).take hc hhandle hheld hchannels⟩
    · rw [htook] at hnone
      cases hnone
    · rw [htook]
      constructor
      · intro hlate
        cases hlate
      · rintro ⟨_, rfl, other, hother, hflag⟩
        obtain rfl := Option.some.inj (hc.symm.trans hother)
        simp [hreported, Channel.isTaken, hheld] at hflag
  · have hgone : ∀ other, host.hub.channels[id]? = some other → other.stream ≠ .held := by
      intro other hother
      obtain rfl := Option.some.inj (hc.symm.trans hother)
      exact hheld
    obtain ⟨htook, hchannels⟩ := serve_take (Hub.takeStream_of_gone hgone)
    refine ⟨fun other hother => ?_, fun _ => ?_, ?_⟩
    · rw [htook] at hother
      cases hother
    · exact Hub.leavesStreams_of_eq hchannels
    · rw [htook]
      have htaken : c.flag? = some true := by
        simp [hreported, Channel.isTaken, hheld]
      exact ⟨fun _ => ⟨id, rfl, c, hc, htaken⟩, fun _ => rfl⟩

/-- What comes of a subscription to a field is fair. -/
theorem isFair_of_subscribes {request : Request} {host : Host} {executor : Executor}
    {source : Option Value} {field : Field} {given : Variables}
    {result : Except ExecutionError Nat} (hexecutor : executor.TakesNoStream)
    (hresult : (request.serve host).1 = .subscribed result)
    (hasks : ∀ id, request.AsksFor host.hub id ↔
      executor.AnswersStream source field given host.hub id)
    (h : executor.Subscribes source field given host.hub result
      (request.serve host).2.hub.channels) : request.IsFair host where
  success id hid := by
    rw [hresult] at hid
    have hok : result = .ok id := by
      cases request <;> cases result <;> simp_all [obtained?]
    subst hok
    obtain ⟨hanswers, hturns⟩ := h.turnsFlag hexecutor
    exact ⟨(hasks id).2 hanswers, hturns⟩
  failure hnone := by
    rw [hresult] at hnone
    cases result with
    | ok id => cases request <;> simp [obtained?] at hnone
    | error error => exact h.leavesStreams hexecutor
  late := by
    rw [hresult]
    simp only [hasks]
    exact h.streamAlreadyTaken_iff hexecutor

/-- What comes of a document that names no field to subscribe to is fair. -/
theorem isFair_of_fault {executor : Executor} {text : String} {given : Variables} {host : Host}
    {error : ExecutionError}
    (h : Executor.subscriptionField (Parsed.ofText text).document = .error error) :
    (subscribeText executor text given).IsFair host := by
  obtain ⟨hresult, hhub⟩ := executor.subscribeText_of_error h given host
  have hserve : ((subscribeText executor text given).serve host).1
      = .subscribed (.error error) := congrArg Response.subscribed hresult
  have hsame : ((subscribeText executor text given).serve host).2.hub = host.hub := hhub
  refine ⟨fun id hid => ?_, fun _ => ?_, ?_⟩
  · rw [hserve] at hid
    cases hid
  · rw [hsame]
    exact Hub.LeavesStreams.refl host.hub
  · rw [hserve]
    constructor
    · rintro ⟨name, hname⟩
      cases hname
      exact absurd h (Executor.subscriptionField_ne_taken _ name)
    · rintro ⟨id, ⟨field, hok, -⟩, -⟩
      simp [h] at hok

/-- **Every request is served fairly.** -/
theorem isFair (request : Request) {host : Host} (h : request.Admissible host.hub) :
    request.IsFair host := by
  cases request with
  | take id =>
    obtain ⟨c, hc, hhandle⟩ := h
    exact isFair_take hc hhandle
  | subscribe executor source field given =>
    exact isFair_of_subscribes h rfl (fun _ => Iff.rfl)
      (executor.subscribes source field given host)
  | subscribeText executor text given =>
    cases hfield : Executor.subscriptionField (Parsed.ofText text).document with
    | ok field =>
      refine isFair_of_subscribes h rfl (fun id => ?_) (Executor.subscribeText_of_ok hfield)
      simp [AsksFor, hfield]
    | error error => exact isFair_of_fault hfield

end Request

/-! ## Sessions -/

/-- **The channels whose streams were obtained**, in the order of time. -/
def obtained (log : List (Request × Response)) : List Nat :=
  log.filterMap fun entry => entry.1.obtained? entry.2

/-- One more request. -/
theorem obtained_concat (log : List (Request × Response)) (request : Request)
    (response : Response) :
    obtained (log ++ [(request, response)])
      = obtained log ++ (request.obtained? response).toList := by
  rw [obtained, obtained, List.filterMap_append]
  cases h : request.obtained? response <;> simp [h]

/-- **A session**: requests are made in any order, by anyone. In between, anyone may do anything
else than take a stream. -/
inductive Session (start : Host) : List (Request × Response) → Host → Prop where
  /-- Nothing was asked for. -/
  | start : Session start [] start
  /-- A request is served. -/
  | serve {log : List (Request × Response)} {host : Host} (session : Session start log host)
    (request : Request) (admissible : request.Admissible host.hub) :
    Session start (log ++ [(request, (request.serve host).1)]) (request.serve host).2
  /-- Something else is done. -/
  | elsewhere {log : List (Request × Response)} {host : Host} (session : Session start log host)
    {after : Host} (leaves : host.hub.LeavesStreams after.hub) : Session start log after

namespace Session

variable {start host : Host} {log : List (Request × Response)}

/-- Whether the stream of a channel was taken. -/
def Taken (host : Host) (id : Nat) : Prop := ∃ c, host.hub.channels[id]? = some c ∧ c.isTaken

/-- A request puts no stream back. -/
theorem taken_serve {request : Request} (hfair : request.IsFair host) {id : Nat}
    (h : Taken host id) : Taken (request.serve host).2 id := by
  obtain ⟨c, hc, htaken⟩ := h
  cases hobtained : request.obtained? (request.serve host).1 with
  | none => exact (hfair.failure hobtained).isTaken hc htaken
  | some taken => exact (hfair.success taken hobtained).2.isTaken hc htaken

/-- What is obtained was not taken before. -/
theorem not_taken_of_obtained {request : Request} (hfair : request.IsFair host) {id : Nat}
    (h : request.obtained? (request.serve host).1 = some id) : ¬ Taken host id := by
  rintro ⟨c, hc, htaken⟩
  have hfalse := Channel.isTaken_of_flag? ((hfair.success id h).2.before c hc)
  simp [htaken] at hfalse

/-- What is obtained is taken from then on. -/
theorem taken_of_obtained {request : Request} (hfair : request.IsFair host) {id : Nat}
    (h : request.obtained? (request.serve host).1 = some id) :
    Taken (request.serve host).2 id := by
  obtain ⟨later, hlater, hflag⟩ := (hfair.success id h).2.turned
  exact ⟨later, hlater, Channel.isTaken_of_flag? hflag⟩

/-- **What was taken stays taken.** -/
theorem taken (h : Session start log host) {id : Nat} (htaken : Taken start id) :
    Taken host id := by
  induction h with
  | start => exact htaken
  | serve _ request hadmissible ih => exact taken_serve (request.isFair hadmissible) ih
  | elsewhere _ hleaves ih =>
    obtain ⟨c, hc, hsome⟩ := ih
    exact hleaves.isTaken hc hsome

/-- **What was obtained is taken.** -/
theorem taken_obtained (h : Session start log host) : ∀ id ∈ obtained log, Taken host id := by
  induction h with
  | start => simp [obtained]
  | @serve log host _ request hadmissible ih =>
    have hfair := request.isFair hadmissible
    intro id hid
    rw [obtained_concat, List.mem_append, Option.mem_toList] at hid
    rcases hid with hearlier | hnow
    · exact taken_serve hfair (ih id hearlier)
    · exact taken_of_obtained hfair hnow
  | elsewhere _ hleaves ih =>
    intro id hid
    obtain ⟨c, hc, hsome⟩ := ih id hid
    exact hleaves.isTaken hc hsome

/-- **What was obtained was there to be had** when the session began, and was obtained once. -/
theorem obtained_nodup (h : Session start log host) :
    (obtained log).Nodup ∧ ∀ id ∈ obtained log, ¬ Taken start id := by
  induction h with
  | start => simp [obtained]
  | @serve log host session request hadmissible ih =>
    have hfair := request.isFair hadmissible
    obtain ⟨hnodup, huntaken⟩ := ih
    cases hobtained : request.obtained? (request.serve host).1 with
    | none => simpa [obtained_concat, hobtained] using ⟨hnodup, huntaken⟩
    | some id =>
      -- What is obtained now was not taken so far, but everything obtained before was.
      have hnew : ¬ Taken host id := not_taken_of_obtained hfair hobtained
      rw [obtained_concat, hobtained]
      constructor
      · refine List.nodup_append.2 ⟨hnodup, List.nodup_singleton id, ?_⟩
        rintro earlier hearlier _ hid rfl
        rw [List.mem_singleton.1 hid] at hearlier
        exact hnew (session.taken_obtained id hearlier)
      · intro other hother
        rcases List.mem_append.1 hother with hearlier | hnow
        · exact huntaken other hearlier
        · rw [List.mem_singleton.1 hnow]
          exact fun htaken => hnew (session.taken htaken)
  | elsewhere _ _ ih => exact ih

/-- **What a session guarantees.** -/
structure HandsOutOnce (start : Host) (log : List (Request × Response)) (host : Host) : Prop where
  /-- The stream of a channel is obtained at most once. -/
  once : (obtained log).Nodup
  /-- A stream that was taken stays taken, and nobody obtains it again. -/
  final : ∀ id, Taken start id → Taken host id ∧ id ∉ obtained log
  /-- What was obtained is taken. -/
  taken : ∀ id ∈ obtained log, Taken host id
  /-- Whatever is asked for next, the answer is fair. -/
  fair : ∀ request : Request, request.Admissible host.hub → request.IsFair host

/-- **A stream is handed out at most once, and only by success.** -/
theorem handsOutOnce (h : Session start log host) : HandsOutOnce start log host where
  once := h.obtained_nodup.1
  final id htaken := ⟨h.taken htaken, fun hid => h.obtained_nodup.2 id hid htaken⟩
  taken := h.taken_obtained
  fair request hadmissible := request.isFair hadmissible

end Session

/-! ## A session with a shared source -/

/-- A resolver that opens a channel and answers its stream. -/
def Resolver.opening (capacity : Nat) : Resolver := fun _ _ => do
  let id ← Hub.openChannel capacity
  return .ok (.stream id)

theorem Resolver.TakesNoStream.opening (capacity : Nat) :
    (Resolver.opening capacity).TakesNoStream where
  leaves _ _ hub := Hub.leavesStreams_openChannel capacity hub
  holds _ _ hub id hanswer := by
    obtain rfl : hub.channels.length = id := Value.stream.inj (Except.ok.inj hanswer)
    exact ⟨Channel.fresh capacity, List.getElem?_concat_length, Nat.one_ne_zero⟩

/-- A resolver that answers the stream of one channel, as long as its source has a handle. -/
def Resolver.sharing (id : Nat) : Resolver := fun _ _ hub =>
  if (hub.channels[id]?.any fun c => c.sources ≠ 0) = true then (.ok (.stream id), hub)
  else (.error ⟨"the source is gone"⟩, hub)

theorem Resolver.TakesNoStream.sharing (id : Nat) : (Resolver.sharing id).TakesNoStream where
  leaves _ _ hub := by
    unfold Resolver.sharing
    split <;> exact .refl hub
  holds _ _ hub other hanswer := by
    unfold Resolver.sharing at hanswer ⊢
    split at hanswer
    · next hhandle =>
      obtain rfl : id = other := Value.stream.inj (Except.ok.inj hanswer)
      rw [if_pos hhandle]
      simpa [Option.any_eq_true] using hhandle
    · cases hanswer

namespace Session

/-- An executor with two subscriptions: one opens a channel, the other shares the first channel. -/
def openingAndSharing : Executor :=
  ⟨⟨[], [], [("open", .opening 1), ("share", .sharing 0)]⟩, {}⟩

theorem takesNoStream_openingAndSharing : openingAndSharing.TakesNoStream := by
  intro name resolver hlookup
  simp only [openingAndSharing, Registry.lookup?, Registry.resolvers, Entries.get?_cons,
    Entries.get?_nil] at hlookup
  split at hlookup
  · obtain rfl := Option.some.inj hlookup
    exact .opening 1
  · split at hlookup
    · obtain rfl := Option.some.inj hlookup
      exact .sharing 0
    · cases hlookup

/-- The stream of a channel that one subscription opens is not to be had by way of another one, nor
from a handle of its source, not even when the stream has been dropped. -/
theorem handsOutOnce_shared :
    HandsOutOnce Host.empty
      [(.subscribe openingAndSharing none ⟨"open", [], none⟩ .empty, .subscribed (.ok 0)),
        (.subscribe openingAndSharing none ⟨"share", [], none⟩ .empty,
          .subscribed (.error (.streamAlreadyTaken "share"))),
        (.take 0, .took false)]
      ⟨⟨[⟨1, [], [], 1, 1, .dropped, true, true⟩], 0, []⟩,
        #[.channel (.opened 1), .subscriptionStarted "open"]⟩ := by
  apply handsOutOnce
  have hopened : Session Host.empty _ _ := Session.start.serve
    (.subscribe openingAndSharing none ⟨"open", [], none⟩ .empty) takesNoStream_openingAndSharing
  have hpossible :
      Channel.Deed.Possible ⟨1, [], [], 1, 1, .taken, false, false⟩ (.act .dropStream) := rfl
  have hleaves : Hub.LeavesStreams ⟨[⟨1, [], [], 1, 1, .taken, false, false⟩], 0, []⟩
      ⟨[⟨1, [], [], 1, 1, .dropped, true, true⟩], 0, []⟩ :=
    Hub.leavesStreams_perform 0 rfl (fun hheld => by cases hheld) hpossible (by decide) rfl
  have hdropped : Session Host.empty _
      ⟨⟨[⟨1, [], [], 1, 1, .dropped, true, true⟩], 0, []⟩,
        #[.channel (.opened 1), .subscriptionStarted "open"]⟩ := hopened.elsewhere hleaves
  have hshared := hdropped.serve
    (.subscribe openingAndSharing none ⟨"share", [], none⟩ .empty) takesNoStream_openingAndSharing
  exact hshared.serve (.take 0) ⟨_, rfl, by decide⟩

end Session

end GraphQuery
