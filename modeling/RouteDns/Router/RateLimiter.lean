import RouteDns.Cidr.Text
import RouteDns.Program.Run

/-!
# Limiting the rate of queries

A rate limiter counts the requests of every client network in windows of fixed length.  A
request reads the clock, updates the counter of its network under a lock, and is then
forwarded.  The counters belong to one window; a request of any other window starts them
anew.

Requests run concurrently, so that one may read the clock before another and update the
counters after it.
-/

namespace RouteDns.Router

open Dns Cidr

structure RateLimiterOptions where
  requests : Nat
  window : Nat
  prefix4 : UInt8
  prefix6 : UInt8
  hasLimitResolver : Bool

/-- The options of a new rate limiter, with their defaults. -/
def RateLimiterOptions.withDefaults (opt : RateLimiterOptions) : RateLimiterOptions :=
  { opt with
    window := if opt.window = 0 then 60 else opt.window
    prefix4 := if opt.prefix4 = 0 then 24 else opt.prefix4
    prefix6 := if opt.prefix6 = 0 then 56 else opt.prefix6 }

/-- Apply a mask with some leading ones; a mask with more ones than bits is none. -/
def maskTo (ip : IP) (ones bits : Nat) : IP :=
  if bits < ones then [] else maskIP ip ones bits

/-- The network a client is counted under. -/
def clientKey (opt : RateLimiterOptions) (sourceIP : IP) : Text :=
  if (to4 sourceIP).isSome then ipString (maskTo sourceIP opt.prefix4.toNat 32)
  else ipString (maskTo sourceIP opt.prefix6.toNat 128)

/-- The window of a time in seconds; the length of windows is converted to a signed number. -/
def windowAt (opt : RateLimiterOptions) (now : Int) : Int :=
  Int.tdiv now (Int.bmod opt.window 18446744073709551616)

/-- The counters and the window they belong to.  There is no map of counters before the first
request of a window other than 0. -/
structure Limiter where
  currWinID : Int
  counters : Option (Text → Nat)

/-- What is done under the lock: whether the request is rejected, and the new counters.  An
assignment to an entry of a map that is not there panics. -/
def Limiter.update (opt : RateLimiterOptions) (windowID : Int) (key : Text) (r : Limiter) :
    Option (Bool × Limiter) :=
  let r := if windowID ≠ r.currWinID then { currWinID := windowID, counters := some fun _ => 0 }
    else r
  match r.counters with
  | none => none
  | some counters =>
    let v := counters key
    some (opt.requests ≤ v,
      { r with counters := some fun other =>
          if other = key then (v + 1) % 18446744073709551616 else counters other })

inductive Destination where
  | resolver
  | limitResolver
  | drop
  deriving DecidableEq

/-- How far a request has come. -/
inductive Stage where
  | arrived
  | decided (reject : Bool)
  | forwarded (destination : Destination)
  deriving DecidableEq

/-- A request with what it has computed before it takes the lock. -/
structure Request where
  key : Text
  windowID : Int
  stage : Stage

/-- Any number of requests at one rate limiter. -/
structure System where
  clock : Int
  limiter : Limiter
  requests : List Request
  crashed : Bool

/-- A rate limiter before its first request. -/
def System.initial (clock : Int) : System where
  clock := clock
  limiter := { currWinID := 0, counters := none }
  requests := []
  crashed := false

/-- The steps of requests, which are numbered in the order in which they read the clock. -/
inductive Event where
  | arrive (sourceIP : IP) (now : Int)
  | update (index : Nat)
  | forward (index : Nat)

/-- One step; the clock never goes back, and nothing follows a panic. -/
def step (opt : RateLimiterOptions) (s : System) : Event → Option System
  | .arrive sourceIP now =>
    if s.crashed ∨ now < s.clock then none
    else
      some { s with
        clock := now
        requests := s.requests ++
          [{ key := clientKey opt sourceIP, windowID := windowAt opt now, stage := .arrived }] }
  | .update index =>
    match s.requests[index]? with
    | none => none
    | some request =>
      if s.crashed ∨ request.stage ≠ .arrived then none
      else
        match s.limiter.update opt request.windowID request.key with
        | none => some { s with crashed := true }
        | some (reject, limiter) =>
          some { s with
            limiter := limiter
            requests := s.requests.set index { request with stage := .decided reject } }
  | .forward index =>
    match s.requests[index]? with
    | none => none
    | some request =>
      match request.stage with
      | .decided reject =>
        if s.crashed then none
        else
          let destination :=
            if reject then
              if opt.hasLimitResolver then Destination.limitResolver else .drop
            else .resolver
          some { s with
            requests := s.requests.set index
              { request with stage := .forwarded destination } }
      | _ => none

/-! ## What a step can do -/

variable {now : Int} {reject : Bool} {sourceIP : IP} {limiter : Limiter}

section Steps

variable {opt : RateLimiterOptions} {s t : System}

/-- An update changes the counters and decides about one request, or the process ends. -/
theorem step_update {index : Nat} (taken : step opt s (.update index) = some t) :
    ∃ request, s.requests[index]? = some request ∧ request.stage = .arrived ∧
      ((s.limiter.update opt request.windowID request.key = none ∧ t = { s with crashed := true }) ∨
        ∃ reject limiter,
          s.limiter.update opt request.windowID request.key = some (reject, limiter) ∧
          t = { s with
            limiter := limiter
            requests := s.requests.set index { request with stage := .decided reject } }) := by
  rw [step] at taken
  split at taken
  · cases taken
  · rename_i request found
    obtain ⟨ready, taken⟩ := Option.ite_none_left_eq_some.mp taken
    rw [not_or, not_not] at ready
    refine ⟨request, found, ready.2, ?_⟩
    split at taken
    · rename_i panics
      exact .inl ⟨panics, (Option.some.inj taken).symm⟩
    · rename_i reject limiter updated
      exact .inr ⟨reject, limiter, updated, (Option.some.inj taken).symm⟩

theorem step_forward {index : Nat} (taken : step opt s (.forward index) = some t) :
    ∃ request reject destination, s.requests[index]? = some request ∧
      request.stage = .decided reject ∧ (destination = .resolver ↔ reject = false) ∧
      t = { s with
        requests := s.requests.set index { request with stage := .forwarded destination } } := by
  rw [step] at taken
  split at taken
  · cases taken
  · rename_i request found
    split at taken
    · rename_i reject stage
      obtain ⟨-, same⟩ := Option.ite_none_left_eq_some.mp taken
      refine ⟨request, reject, _, found, stage, ?_, (Option.some.inj same).symm⟩
      cases reject
      · simp
      · cases opt.hasLimitResolver <;> simp
    · cases taken

theorem step_arrive (taken : step opt s (.arrive sourceIP now) = some t) :
    t = { s with
      clock := now
      requests := s.requests ++
        [{ key := clientKey opt sourceIP, windowID := windowAt opt now, stage := .arrived }] } := by
  obtain ⟨-, same⟩ := Option.ite_none_left_eq_some.mp taken
  exact (Option.some.inj same).symm

/-- The counters that an update starts from: new ones in a window other than the current one. -/
def Limiter.StartsFrom (r : Limiter) (windowID : Int) (counters : Text → Nat) : Prop :=
  windowID ≠ r.currWinID ∧ (∀ other, counters other = 0) ∨
    windowID = r.currWinID ∧ r.counters = some counters

/-- What an update of a request does to the counters if there is a map afterwards. -/
theorem Limiter.update_eq_some {r r' : Limiter} {windowID : Int} {key : Text}
    (updated : r.update opt windowID key = some (reject, r')) :
    r'.currWinID = windowID ∧ ∃ counters : Text → Nat, r.StartsFrom windowID counters ∧
      reject = decide (opt.requests ≤ counters key) ∧
      r'.counters = some fun other =>
        if other = key then (counters key + 1) % 18446744073709551616 else counters other := by
  unfold Limiter.update at updated
  by_cases moved : windowID ≠ r.currWinID
  · simp only [moved, ne_eq, not_false_eq_true, if_true, Option.some.injEq,
      Prod.mk.injEq] at updated
    obtain ⟨rejected, rfl⟩ := updated
    exact ⟨rfl, fun _ => 0, .inl ⟨moved, fun _ => rfl⟩, rejected.symm, rfl⟩
  · rw [not_not] at moved
    simp only [moved, ne_eq, not_true_eq_false, if_false] at updated
    split at updated
    · cases updated
    · rename_i counters found
      simp only [Option.some.injEq, Prod.mk.injEq] at updated
      obtain ⟨rejected, rfl⟩ := updated
      exact ⟨moved.symm, counters, .inr ⟨moved, found⟩, rejected.symm, rfl⟩

end Steps

/-! ## How many requests are admitted -/

/-- The request is or will be forwarded to the main resolver. -/
def Request.admitted (request : Request) : Bool :=
  request.stage = .decided false || request.stage = .forwarded .resolver

/-- The number of requests of a network and a window that are admitted. -/
def System.admittedIn (s : System) (key : Text) (windowID : Int) : Nat :=
  s.requests.countP fun request =>
    request.admitted && request.key = key && request.windowID = windowID

/-- The number of requests of a network that arrived in a window and were forwarded to the
main resolver. -/
def System.forwardedIn (s : System) (key : Text) (windowID : Int) : Nat :=
  s.requests.countP fun request =>
    request.stage = .forwarded .resolver && request.key = key && request.windowID = windowID

theorem System.forwardedIn_le (s : System) (key : Text) (windowID : Int) :
    s.forwardedIn key windowID ≤ s.admittedIn key windowID := by
  apply List.countP_mono_left
  intro request _ forwarded
  simp_all [Request.admitted]

/-- An update is made in time: it does not take the counters back to an earlier window, and
its counter does not overflow. -/
def InTime (s : System) : Event → Prop
  | .update index =>
    ∀ request ∈ s.requests[index]?, ∀ counters ∈ s.limiter.counters,
      s.limiter.currWinID ≤ request.windowID ∧
        (request.windowID = s.limiter.currWinID →
          counters request.key + 1 < 18446744073709551616)
  | .arrive _ _ => True
  | .forward _ => True

instance (s : System) : (event : Event) → Decidable (InTime s event)
  | .update index =>
    inferInstanceAs (Decidable (∀ request ∈ s.requests[index]?, ∀ counters ∈ s.limiter.counters,
      s.limiter.currWinID ≤ request.windowID ∧
        (request.windowID = s.limiter.currWinID →
          counters request.key + 1 < 18446744073709551616)))
  | .arrive _ _ => isTrue trivial
  | .forward _ => isTrue trivial

/-- No network has more admitted requests in a window than configured, the counters count
them, and no request of a later window is admitted yet. -/
structure Bounded (opt : RateLimiterOptions) (s : System) : Prop where
  limited : ∀ key windowID, s.admittedIn key windowID ≤ opt.requests
  counted : ∀ counters, s.limiter.counters = some counters →
    ∀ key, s.admittedIn key s.limiter.currWinID ≤ counters key
  later : ∀ key windowID, s.limiter.counters = none ∨ s.limiter.currWinID < windowID →
    s.admittedIn key windowID = 0

section Counts

variable {opt : RateLimiterOptions} {s : System} {index : Nat} {request : Request} {key : Text}
  {windowID : Int}

variable {next : Request} {p : Request → Bool} {requests : List Request}

/-- Replacing a request by one that is as admitted does not change the numbers. -/
theorem countP_set_of_eq (found : requests[index]? = some request) (same : p next = p request) :
    (requests.set index next).countP p = requests.countP p := by
  obtain ⟨inside, entry⟩ := List.getElem?_eq_some_iff.mp found
  have counted : p requests[index] = true → 0 < requests.countP p := fun holds =>
    List.countP_pos_iff.mpr ⟨_, List.getElem_mem inside, holds⟩
  rw [List.countP_set inside, same, ← entry]
  split
  · rename_i holds
    have := counted holds
    omega
  · omega

theorem countP_set_of_new (found : requests[index]? = some request) (before : p request = false)
    (after : p next = true) : (requests.set index next).countP p = requests.countP p + 1 := by
  obtain ⟨inside, entry⟩ := List.getElem?_eq_some_iff.mp found
  rw [List.countP_set inside, entry, before, after]
  simp

theorem Bounded.of_same {t : System} (bounded : Bounded opt s) (limiter : t.limiter = s.limiter)
    (same : ∀ key windowID, t.admittedIn key windowID = s.admittedIn key windowID) :
    Bounded opt t where
  limited key windowID := same key windowID ▸ bounded.limited key windowID
  counted counters found key := by
    rw [limiter] at found ⊢
    rw [same]
    exact bounded.counted counters found key
  later key windowID outside := by
    rw [limiter] at outside
    rw [same]
    exact bounded.later key windowID outside

/-- A request that is not yet decided is not admitted. -/
theorem admitted_arrived (arrived : request.stage = .arrived) : request.admitted = false := by
  simp [Request.admitted, arrived]

/-- How a decision about a request changes the numbers. -/
theorem admittedIn_decided (found : s.requests[index]? = some request)
    (arrived : request.stage = .arrived) :
    System.admittedIn { s with
        limiter := limiter
        requests := s.requests.set index { request with stage := .decided reject } } key windowID =
      if reject = false ∧ request.key = key ∧ request.windowID = windowID then
        s.admittedIn key windowID + 1
      else s.admittedIn key windowID := by
  split
  · rename_i counts
    apply countP_set_of_new found
    · simp [admitted_arrived arrived]
    · simp [Request.admitted, counts]
  · rename_i counts
    apply countP_set_of_eq found
    rw [admitted_arrived arrived]
    cases reject
    · simp only [true_and, not_and] at counts
      simpa [Request.admitted] using counts
    · simp [Request.admitted]

end Counts

section Preservation

variable {opt : RateLimiterOptions} {s t : System}

theorem Bounded.arrive (bounded : Bounded opt s)
    (taken : step opt s (.arrive sourceIP now) = some t) : Bounded opt t := by
  rw [step_arrive taken]
  refine bounded.of_same ?_ fun key windowID => ?_
  · rfl
  simp [System.admittedIn, Request.admitted, List.countP_append]

theorem Bounded.forward {index : Nat} (bounded : Bounded opt s)
    (taken : step opt s (.forward index) = some t) : Bounded opt t := by
  obtain ⟨request, reject, destination, found, stage, main, rfl⟩ := step_forward taken
  refine bounded.of_same ?_ fun key windowID => ?_
  · rfl
  apply countP_set_of_eq found
  have same : Request.admitted { request with stage := .forwarded destination } =
      request.admitted := by
    cases reject <;> cases destination <;> simp_all [Request.admitted]
  rw [same]

/-- What an update in time finds: no counters, or counters of its own or an earlier window. -/
theorem InTime.cases {index : Nat} {request : Request} (inTime : InTime s (.update index))
    (found : s.requests[index]? = some request) :
    s.limiter.counters = none ∨ ∃ counters, s.limiter.counters = some counters ∧
      s.limiter.currWinID ≤ request.windowID ∧
      (request.windowID = s.limiter.currWinID →
        counters request.key + 1 < 18446744073709551616) := by
  cases stored : s.limiter.counters with
  | none => exact .inl rfl
  | some counters => exact .inr ⟨counters, rfl, inTime request found counters stored⟩

section Update

variable {index : Nat} {request : Request} {counters : Text → Nat} {key : Text} {windowID : Int}

theorem Bounded.later_of_inTime (bounded : Bounded opt s) (inTime : InTime s (.update index))
    (found : s.requests[index]? = some request) (after : request.windowID < windowID) :
    s.admittedIn key windowID = 0 := by
  apply bounded.later
  rcases inTime.cases found with none | ⟨_, _, notBack, _⟩
  · exact .inl none
  · exact .inr (lt_of_le_of_lt notBack after)

theorem Bounded.counted_of_inTime (bounded : Bounded opt s) (inTime : InTime s (.update index))
    (found : s.requests[index]? = some request)
    (origin : s.limiter.StartsFrom request.windowID counters) :
    s.admittedIn key request.windowID ≤ counters key := by
  rcases origin with ⟨moved, _⟩ | ⟨same, current⟩
  · -- A new window has no admitted requests yet.
    have none : s.admittedIn key request.windowID = 0 := by
      apply bounded.later
      rcases inTime.cases found with none | ⟨_, _, notBack, _⟩
      · exact .inl none
      · exact .inr (lt_of_le_of_ne notBack (Ne.symm moved))
    omega
  · rw [same]
    exact bounded.counted counters current key

theorem InTime.counter_lt (inTime : InTime s (.update index))
    (found : s.requests[index]? = some request)
    (origin : s.limiter.StartsFrom request.windowID counters) :
    counters request.key + 1 < 18446744073709551616 := by
  rcases origin with ⟨_, zero⟩ | ⟨same, current⟩
  · rw [zero]
    omega
  · rcases inTime.cases found with none | ⟨_, stored, _, fits⟩
    · rw [none] at current
      cases current
    · rw [current] at stored
      cases stored
      exact fits same

/-- A decision by counters that count the admitted requests of its window. -/
theorem Bounded.decided (bounded : Bounded opt s) (found : s.requests[index]? = some request)
    (arrived : request.stage = .arrived)
    (counted : ∀ key, s.admittedIn key request.windowID ≤ counters key)
    (later : ∀ key windowID, request.windowID < windowID → s.admittedIn key windowID = 0)
    (window : limiter.currWinID = request.windowID)
    (rejected : reject = decide (opt.requests ≤ counters request.key))
    (stored : limiter.counters = some fun other =>
      if other = request.key then counters request.key + 1 else counters other) :
    Bounded opt { s with
      limiter := limiter
      requests := s.requests.set index { request with stage := .decided reject } } where
  limited key windowID := by
    rw [admittedIn_decided found arrived]
    split
    · rename_i counts
      obtain ⟨accepted, rfl, rfl⟩ := counts
      have room : ¬ opt.requests ≤ counters request.key := by
        rw [accepted] at rejected
        exact of_decide_eq_false rejected.symm
      have := counted request.key
      omega
    · exact bounded.limited key windowID
  counted counters' stored' key := by
    cases stored.symm.trans stored'
    have := counted key
    change _ ≤ if key = request.key then counters request.key + 1 else counters key
    rw [admittedIn_decided found arrived, window]
    split
    · rename_i counts
      rw [if_pos counts.2.1.symm, counts.2.1]
      omega
    · split
      · rename_i same
        rw [← same]
        omega
      · exact this
  later key windowID outside := by
    have after : request.windowID < windowID := by
      rcases outside with empty | after
      · cases stored.symm.trans empty
      · exact window ▸ after
    rw [admittedIn_decided found arrived, later key windowID after, if_neg]
    rintro ⟨_, _, same⟩
    exact absurd same (ne_of_lt after)

end Update

theorem Bounded.update {index : Nat} (bounded : Bounded opt s) (inTime : InTime s (.update index))
    (taken : step opt s (.update index) = some t) : Bounded opt t := by
  obtain ⟨request, found, arrived, outcome⟩ := step_update taken
  rcases outcome with ⟨_, rfl⟩ | ⟨reject, limiter, updated, rfl⟩
  · exact bounded.of_same rfl fun _ _ => rfl
  · obtain ⟨window, counters, origin, rejected, stored⟩ := Limiter.update_eq_some updated
    rw [Nat.mod_eq_of_lt (inTime.counter_lt found origin)] at stored
    exact bounded.decided found arrived
      (fun _ => bounded.counted_of_inTime inTime found origin)
      (fun _ _ after => bounded.later_of_inTime inTime found after) window rejected stored

theorem Bounded.step {event : Event} (bounded : Bounded opt s) (inTime : InTime s event)
    (taken : Router.step opt s event = some t) : Bounded opt t := by
  cases event with
  | arrive sourceIP now => exact bounded.arrive taken
  | update index => exact bounded.update inTime taken
  | forward index => exact bounded.forward taken

end Preservation

theorem bounded_initial (opt : RateLimiterOptions) (clock : Int) :
    Bounded opt (System.initial clock) where
  limited _ _ := Nat.zero_le _
  counted _ found := nomatch found
  later _ _ _ := rfl

/-- In every run in which all updates are made in time, every network has in every window at
most the configured number of requests forwarded to the main resolver. -/
theorem rate_limited (opt : RateLimiterOptions) (clock : Int) (events : List Event) (s : System)
    (run : Run (step opt.withDefaults) InTime (System.initial clock) events s) :
    ∀ key windowID, s.forwardedIn key windowID ≤ opt.requests := by
  have bounded : Bounded opt.withDefaults s :=
    run.invariant (Bounded opt.withDefaults) (bounded_initial _ clock)
      fun holds inTime taken => holds.step inTime taken
  intro key windowID
  exact (s.forwardedIn_le key windowID).trans (bounded.limited key windowID)

/-- One request a minute. -/
def oneRequest : RateLimiterOptions where
  requests := 1
  window := 60
  prefix4 := 0
  prefix6 := 0
  hasLimitResolver := false

def client : IP := [192, 0, 2, 1]

/-- Two requests of one network arrive in the window 1, of which the second is dropped, and one in
the window 2. -/
def twoWindows : List Event :=
  [.arrive client 100, .arrive [192, 0, 2, 9] 110, .update 0, .forward 0, .update 1, .forward 1,
    .arrive client 130, .update 2, .forward 2]

theorem second_request_dropped :
    ∃ s, Run (step oneRequest.withDefaults) InTime (System.initial 0) twoWindows s ∧
      s.requests.map Request.stage =
        [.forwarded .resolver, .forwarded .drop, .forwarded .resolver] ∧
      (s.forwardedIn (text "192.0.2.0") 1 = 1 ∧ s.forwardedIn (text "192.0.2.0") 2 = 1) ∧
      ∀ key windowID, s.forwardedIn key windowID ≤ oneRequest.requests := by
  have run : Run (step oneRequest.withDefaults) InTime (System.initial 0) twoWindows _ :=
    Run.of_foldlM rfl
  refine ⟨_, run, ?_, ?_, rate_limited oneRequest 0 _ _ run⟩
  · decide +kernel
  · decide +kernel

/-- Two requests arrive in the window 1 and one in the window 2.  The second is overtaken by
the third, and starts the counters of the window 1 anew. -/
theorem overtaken_request_exceeds :
    ∃ s, Run (step oneRequest.withDefaults) (fun _ _ => True) (System.initial 0)
        [.arrive client 60, .update 0, .forward 0, .arrive client 119, .arrive client 120,
          .update 2, .update 1, .forward 1] s ∧
      ¬ s.forwardedIn (text "192.0.2.0") 1 ≤ oneRequest.requests := by
  refine ⟨_, Run.of_foldlM rfl, ?_⟩
  decide +kernel

end RouteDns.Router
