import RouteDns.Dedup.Resolve

/-!
# Every order of concurrent calls

A request in the table belongs to the one call that has put it there and not yet taken it out; a
call that waits has found the request of a call with its key.  From this follows what holds of any
number of calls, whatever the order of their steps: they share queries and lose no answer.
-/

namespace RouteDns.Dedup

open Dns Cache

/-! ## The invariant -/

/-- What holds of a call after some events. -/
structure CallSound (events : List DedupEvent) (s : RequestDedup) (index : Nat) (call : Call) :
    Prop where
  since : Since events index call.query index
  arrived : call.phase = .arrived → ∀ leader,
    s.inflight.lookup (dedupKey call.query) = some leader → Since events index call.query leader
  waiting : ∀ leader, call.phase = .waiting leader →
    ∃ other, s.calls[leader]? = some other ∧ dedupKey other.query = dedupKey call.query ∧
      other.request.isSome = true ∧ Since events index call.query leader
  outcome : ∀ outcome, call.phase.outcome? = some outcome → .finish index outcome ∈ events
  served : ∀ result, call.phase = .returned result → Served events s index call.query result
  request : call.phase.isReturned = false → call.request = call.phase.request
  kept : call.phase.isReturned = true → ∀ req, call.request = some req →
    req.done = true ∧ .finish index { answer := req.answer, err := req.err } ∈ events

/-- What holds after some events. -/
structure Sound (events : List DedupEvent) (s : RequestDedup) : Prop where
  calls : ∀ index call, s.calls[index]? = some call → CallSound events s index call
  entries : ∀ key index, s.inflight.lookup key = some index ↔
    ∃ call, s.calls[index]? = some call ∧ dedupKey call.query = key ∧ call.phase.registered = true
  finished : ∀ index outcome, .finish index outcome ∈ events →
    ∃ call, s.calls[index]? = some call ∧ call.phase.finished = true
  one_outcome : ∀ index first second, .finish index first ∈ events →
    .finish index second ∈ events → first = second

/-- What other calls see of a step: queries and requests stay, and a request that is new in the
table has not been answered. -/
structure Extends (events : List DedupEvent) (s next : RequestDedup) : Prop where
  calls : ∀ (index : Nat) (call : Call), s.calls[index]? = some call →
    ∃ moved : Call, next.calls[index]? = some moved ∧ moved.query = call.query ∧
      (call.request.isSome = true → moved.request.isSome = true)
  inflight : ∀ key leader, next.inflight.lookup key = some leader →
    s.inflight.lookup key = some leader ∨ ∀ outcome, .finish leader outcome ∉ events

section Invariant

variable {events : List DedupEvent} {s next : RequestDedup} {event : DedupEvent} {index : Nat}
  {call moved : Call} {table : FiniteMap DedupKey Nat}

variable {q : CacheQuery} {leader other : Nat} {result outcome : Outcome}

theorem Arrives.concat {front : List DedupEvent} {before : RequestDedup}
    (arrives : Arrives events index q front before) (event : DedupEvent) :
    Arrives (events ++ [event]) index q front before := by
  obtain ⟨back, same⟩ := arrives.event
  refine ⟨⟨back ++ [event], ?_⟩, arrives.reached, arrives.numbered⟩
  rw [same, List.append_assoc, List.cons_append]

theorem Since.concat (since : Since events index q leader) (event : DedupEvent) :
    Since (events ++ [event]) index q leader := by
  obtain ⟨front, before, arrives, open_⟩ := since
  exact ⟨front, before, arrives.concat event, open_⟩

/-- A query that has not returned had not when a call came in. -/
theorem Since.of_unfinished (since : Since events index q other)
    (unfinished : ∀ outcome, .finish leader outcome ∉ events) : Since events index q leader := by
  obtain ⟨front, before, arrives, -⟩ := since
  refine ⟨front, before, arrives, .inl fun outcome member => unfinished outcome ?_⟩
  obtain ⟨back, same⟩ := arrives.event
  rw [same]
  exact List.mem_append_left _ member

theorem Served.extend (served : Served events s index q result) (extended : Extends events s next)
    (event : DedupEvent) : Served (events ++ [event]) next index q result := by
  obtain ⟨leader, call, outcome, found, same, finished, since, returned⟩ := served
  obtain ⟨moved, found, query_eq, -⟩ := extended.calls leader call found
  exact ⟨leader, moved, outcome, found, query_eq ▸ same, List.mem_append_left _ finished,
    since.concat event, returned⟩

theorem CallSound.extend (sound : CallSound events s index call)
    (extended : Extends events s next) (event : DedupEvent) :
    CallSound (events ++ [event]) next index call := by
  constructor
  case since => exact sound.since.concat event
  case arrived =>
    intro at_ leader found
    rcases extended.inflight _ leader found with before | unfinished
    · exact (sound.arrived at_ leader before).concat event
    · exact (sound.since.of_unfinished unfinished).concat event
  case waiting =>
    intro leader at_
    obtain ⟨other, found, same, made, since⟩ := sound.waiting leader at_
    obtain ⟨moved, found, query_eq, kept⟩ := extended.calls leader other found
    exact ⟨moved, found, query_eq ▸ same, kept made, since.concat event⟩
  case outcome =>
    intro outcome at_
    exact List.mem_append_left _ (sound.outcome outcome at_)
  case served =>
    intro result at_
    exact (sound.served result at_).extend extended event
  case request => exact sound.request
  case kept =>
    intro at_ req made
    obtain ⟨done, finished⟩ := sound.kept at_ req made
    exact ⟨done, List.mem_append_left _ finished⟩

theorem CallSound.finish_mem (sound : CallSound events s index call) (made : call.request =
      some { answer := outcome.answer, err := outcome.err, done := true }) :
    .finish index outcome ∈ events := by
  cases back : call.phase.isReturned with
  | true => exact (sound.kept back _ made).2
  | false =>
    apply sound.outcome
    apply Phase.outcome?_of_done
    rw [← sound.request back, made]

theorem Sound.unfinished (sound : Sound events s) (found : s.calls[index]? = some call)
    (open_ : call.phase.finished = false) (outcome : Outcome) : .finish index outcome ∉ events := by
  intro member
  obtain ⟨other, same, finished⟩ := sound.finished index outcome member
  obtain rfl := Option.some.inj (found.symm.trans same)
  rw [open_] at finished
  cases finished

theorem RequestDedup.getElem?_move (found : s.calls[index]? = some call) (other : Nat) :
    (s.move index moved table).calls[other]? =
      if other = index then some moved else s.calls[other]? := by
  have bound := (List.getElem?_eq_some_iff.mp found).1
  rw [RequestDedup.move, List.getElem?_set]
  by_cases same : other = index
  · rw [if_pos same.symm, if_pos bound, if_pos same]
  · rw [if_neg (Ne.symm same), if_neg same]

theorem Sound.lookup_iff (sound : Sound events s) (found : s.calls[index]? = some call)
    (key : DedupKey) :
    s.inflight.lookup key = some index ↔
      dedupKey call.query = key ∧ call.phase.registered = true := by
  rw [sound.entries]
  constructor
  · rintro ⟨other, same, own⟩
    obtain rfl := Option.some.inj (found.symm.trans same)
    exact own
  · intro own
    exact ⟨call, found, own⟩

/-- A call that waits for a request in the table waits for one with its key. -/
theorem Sound.waiting (sound : Sound events s) (extended : Extends events s next)
    (found : s.calls[index]? = some call) {req : Nat} (at_ : call.phase = .arrived)
    (there : s.inflight.lookup (dedupKey call.query) = some req) :
    ∃ other, next.calls[req]? = some other ∧ dedupKey other.query = dedupKey call.query ∧
      other.request.isSome = true ∧ Since events index call.query req := by
  obtain ⟨other, met, same, registered⟩ := (sound.entries _ req).mp there
  have made : other.request.isSome = true := by
    rw [(sound.calls req other met).request (Phase.isReturned_of_registered registered)]
    exact Phase.isSome_request_of_registered registered
  obtain ⟨later, met, query_eq, kept⟩ := extended.calls req other met
  exact ⟨later, met, query_eq ▸ same, kept made,
    (sound.calls index call found).arrived at_ req there⟩

section Moving

variable (moves : Moves s index call event moved table) (sound : Sound events s)
  (found : s.calls[index]? = some call)
include moves sound found

/-- The request of a call that goes on is in the table if it is to be there; no other one comes
or goes. -/
theorem Moves.lookup_iff (key : DedupKey) (other : Nat) :
    table.lookup key = some other ↔
      if other = index then dedupKey call.query = key ∧ moved.phase.registered = true
      else s.inflight.lookup key = some other := by
  have own := sound.lookup_iff found
  -- entries of other calls under another key, and of this call under none, do not change
  have elsewhere (other_key : key ≠ dedupKey call.query) :
      s.inflight.lookup key = some other ↔
        if other = index then dedupKey call.query = key ∧ moved.phase.registered = true
        else s.inflight.lookup key = some other := by
    by_cases same : other = index
    · rw [if_pos same, same, own]
      simp [Ne.symm other_key]
    · rw [if_neg same]
  rcases moves.table_cases with ⟨rfl, kept⟩ | ⟨rfl, absent, registered⟩ | ⟨rfl, registered, gone⟩
  · by_cases same : other = index
    · rw [if_pos same, same, own, kept]
    · rw [if_neg same]
  · rw [FiniteMap.lookup_insert_ite]
    by_cases at_ : key = dedupKey call.query
    · subst at_
      simp [registered, absent, eq_comm]
    · rw [if_neg at_]
      exact elsewhere at_
  · rw [FiniteMap.lookup_erase_ite]
    by_cases at_ : key = dedupKey call.query
    · rw [if_pos at_, (own key).mpr ⟨at_.symm, registered⟩]
      simp [gone, eq_comm]
    · rw [if_neg at_]
      exact elsewhere at_

theorem Moves.extends : Extends events s (s.move index moved table) := by
  constructor
  case calls =>
    intro other old there
    rw [RequestDedup.getElem?_move found]
    by_cases same : other = index
    · subst same
      obtain rfl := Option.some.inj (found.symm.trans there)
      exact ⟨moved, if_pos rfl, moves.query_eq, moves.isSome_request⟩
    · exact ⟨old, (if_neg same).trans there, rfl, id⟩
  case inflight =>
    intro key leader there
    have listed := (moves.lookup_iff sound found key leader).mp there
    by_cases same : leader = index
    · subst same
      rw [if_pos rfl] at listed
      rcases moves.registered listed.2 with before | open_
      · exact .inl ((sound.lookup_iff found key).mpr ⟨listed.1, before⟩)
      · exact .inr (sound.unfinished found open_)
    · rw [if_neg same] at listed
      exact .inl listed

theorem Sound.served (after : moved.phase = .returned result) :
    Served events s index call.query result := by
  have own := sound.calls index call found
  obtain ⟨outcome, rfl, -, at_ | ⟨req, at_, stored⟩⟩ := moves.of_returned after
  · refine ⟨index, call, outcome, found, rfl, own.outcome outcome ?_, own.since,
      outcome.returnedTo_restored call.query⟩
    rw [at_]
    rfl
  · obtain ⟨other, met, same, -, since⟩ := own.waiting req at_
    rw [met, Option.bind_some] at stored
    exact ⟨req, other, outcome, met, same, (sound.calls req other met).finish_mem stored, since,
      outcome.returnedTo_restored call.query⟩

/-- A call goes on as it should. -/
theorem Moves.callSound :
    CallSound (events ++ [event]) (s.move index moved table) index moved := by
  have own := sound.calls index call found
  have extended := moves.extends sound found
  have query_eq := moves.query_eq
  constructor
  case since =>
    rw [query_eq]
    exact own.since.concat event
  case arrived =>
    intro at_
    exact absurd at_ moves.phase_ne_arrived
  case waiting =>
    intro req after
    obtain ⟨at_, there⟩ := moves.of_waiting after
    obtain ⟨other, met, same, made, since⟩ := sound.waiting extended found at_ there
    rw [query_eq]
    exact ⟨other, met, same, made, since.concat event⟩
  case outcome =>
    intro outcome after
    rcases moves.outcome?_eq after with before | rfl
    · exact List.mem_append_left _ (own.outcome outcome before)
    · exact List.mem_append_right _ (List.mem_singleton.mpr rfl)
  case served =>
    intro result after
    rw [query_eq]
    exact (sound.served moves found after).extend extended event
  case request => exact moves.request_eq own.request
  case kept =>
    intro after req made
    obtain ⟨result, after⟩ := Phase.isReturned_iff.mp after
    obtain ⟨outcome, -, same, at_ | ⟨req, at_, -⟩⟩ := moves.of_returned after
    · have stored := own.request (by rw [at_]; rfl)
      rw [← same, made, at_] at stored
      cases stored
      exact ⟨rfl, List.mem_append_left _ (own.outcome outcome (by rw [at_]; rfl))⟩
    · have none_eq := own.request (by rw [at_]; rfl)
      rw [← same, made, at_] at none_eq
      cases none_eq

theorem Sound.finished_moves (member : .finish other outcome ∈ events ++ [event]) :
    ∃ later, (s.move index moved table).calls[other]? = some later ∧
      later.phase.finished = true := by
  rw [RequestDedup.getElem?_move found]
  rcases List.mem_append.mp member with member | member
  · obtain ⟨old, there, finished⟩ := sound.finished other outcome member
    by_cases same : other = index
    · subst same
      obtain rfl := Option.some.inj (found.symm.trans there)
      exact ⟨moved, if_pos rfl, moves.finished finished⟩
    · exact ⟨old, (if_neg same).trans there, finished⟩
  · obtain rfl := List.mem_singleton.mp member
    obtain ⟨same, -, finished⟩ := moves.of_finish
    exact ⟨moved, if_pos same, finished⟩

/-- The resolver returns to a call once. -/
theorem Sound.one_outcome_moves {first second : Outcome}
    (member : .finish other first ∈ events ++ [event])
    (same : .finish other second ∈ events ++ [event]) : first = second := by
  have apart {earlier last : Outcome} (old : .finish other earlier ∈ events)
      (new : .finish other last ∈ [event]) : False := by
    obtain rfl := List.mem_singleton.mp new
    obtain ⟨rfl, open_, -⟩ := moves.of_finish
    exact sound.unfinished found open_ earlier old
  rcases List.mem_append.mp member with old | new
  · rcases List.mem_append.mp same with old' | new'
    · exact sound.one_outcome other first second old old'
    · exact (apart old new').elim
  · rcases List.mem_append.mp same with old' | new'
    · exact (apart old' new).elim
    · have both := (List.mem_singleton.mp new).trans (List.mem_singleton.mp new').symm
      injection both

theorem Moves.keeps_sound : Sound (events ++ [event]) (s.move index moved table) := by
  have entry := @RequestDedup.getElem?_move s index call moved table found
  constructor
  case calls =>
    intro other later there
    rw [entry] at there
    by_cases same : other = index
    · rw [if_pos same] at there
      cases there
      exact same ▸ moves.callSound sound found
    · rw [if_neg same] at there
      exact (sound.calls other later there).extend (moves.extends sound found) event
  case entries =>
    intro key other
    rw [entry]
    refine (moves.lookup_iff sound found key other).trans ?_
    by_cases same : other = index
    · simp [same, moves.query_eq]
    · simp only [if_neg same]
      exact sound.entries key other
  case finished =>
    intro other outcome
    exact sound.finished_moves moves found
  case one_outcome =>
    intro other first second
    exact sound.one_outcome_moves moves found

end Moving

/-- A call that has just come in waits for nothing. -/
theorem Sound.callSound_arrive (sound : Sound events s) (reached : Reaches events s)
    (q : CacheQuery) :
    CallSound (events ++ [.arrive q])
      { s with calls := s.calls ++ [{ query := q, request := none, phase := .arrived }] }
      s.calls.length { query := q, request := none, phase := .arrived } := by
  have arrives : Arrives (events ++ [.arrive q]) s.calls.length q events s :=
    ⟨⟨[], rfl⟩, reached, rfl⟩
  constructor
  case since =>
    refine ⟨events, s, arrives, .inl fun outcome member => ?_⟩
    obtain ⟨call, found, -⟩ := sound.finished _ outcome member
    exact absurd (List.getElem?_eq_some_iff.mp found).1 (Nat.lt_irrefl _)
  case arrived =>
    intro _ leader found
    exact ⟨events, s, arrives, .inr found⟩
  all_goals simp [Phase.outcome?, Phase.isReturned, Phase.request]

theorem Sound.arrive (sound : Sound events s) (reached : Reaches events s) (q : CacheQuery) :
    Sound (events ++ [.arrive q])
      { s with calls := s.calls ++ [{ query := q, request := none, phase := .arrived }] } := by
  have old {index : Nat} {call : Call} (found : s.calls[index]? = some call) :
      (s.calls ++ [{ query := q, request := none, phase := .arrived }])[index]? = some call := by
    rw [List.getElem?_append_left (List.getElem?_eq_some_iff.mp found).1, found]
  have earlier {index : Nat} {outcome : Outcome}
      (member : .finish index outcome ∈ events ++ [.arrive q]) :
      .finish index outcome ∈ events := by
    simpa using member
  constructor
  case calls =>
    apply forall_getElem?_concat
    · exact sound.callSound_arrive reached q
    · intro other call found
      refine (sound.calls other call found).extend ⟨?_, ?_⟩ _
      · intro index call found
        exact ⟨call, old found, rfl, id⟩
      · intro key leader found
        exact .inl found
  case entries =>
    intro key index
    rw [sound.entries]
    constructor
    · rintro ⟨call, found, own⟩
      exact ⟨call, old found, own⟩
    · rintro ⟨call, found, own⟩
      refine ⟨call, ?_, own⟩
      refine forall_getElem?_concat
        (fun index call => call.phase.registered = true → s.calls[index]? = some call) ?_ ?_
        index call found own.2
      · intro registered
        cases registered
      · intro _ _ there _
        exact there
  case finished =>
    intro index outcome member
    obtain ⟨call, found, finished⟩ := sound.finished index outcome (earlier member)
    exact ⟨call, old found, finished⟩
  case one_outcome =>
    intro index first second member same
    exact sound.one_outcome index first second (earlier member) (earlier same)

/-- Every run is as it should be. -/
theorem Reaches.sound (reached : Reaches events s) : Sound events s := by
  induction reached with
  | nil =>
    constructor
    case entries => simp [newRequestDedup]
    case calls =>
      intro index call found
      cases found
    case finished =>
      intro index outcome member
      cases member
    case one_outcome =>
      intro index first second member
      cases member
  | snoc before _ taken ih =>
    rcases RequestDedup.step_cases taken with ⟨q, rfl, rfl⟩ |
      ⟨index, call, moved, table, found, moves, rfl⟩
    · exact ih.arrive before q
    · exact moves.keeps_sound ih found

end Invariant

/-! ## Progress -/

section Progress

variable {events : List DedupEvent} {s next : RequestDedup} {event : DedupEvent} {index : Nat}
  {call : Call}

/-- A sum is less with a smaller entry put in. -/
theorem sum_map_set_lt {α : Type} {entries : List α} {index : Nat} {entry changed : α}
    (measure : α → Nat) (found : entries[index]? = some entry)
    (less : measure changed < measure entry) :
    ((entries.set index changed).map measure).sum < (entries.map measure).sum := by
  induction entries generalizing index with
  | nil => cases found
  | cons first rest ih =>
    cases index with
    | zero =>
      cases found
      simpa using less
    | succ index =>
      have later := ih found
      simpa using later

theorem RequestDedup.work_lt (other : event.isArrival = false) (taken : s.step event = some next) :
    next.work < s.work := by
  rcases step_cases taken with ⟨q, rfl, rfl⟩ | ⟨index, call, moved, table, found, moves, rfl⟩
  · cases other
  · exact sum_map_set_lt (fun call => call.phase.remaining) found moves.remaining_lt

/-- A call that waits for no other can go on. -/
theorem RequestDedup.exists_step (found : s.calls[index]? = some call)
    (alone : ∀ req, call.phase ≠ .waiting req) (running : call.phase.isReturned = false) :
    ∃ event, DedupEvent.isArrival event = false ∧ (s.step event).isSome = true := by
  have advance (goes : (s.resolve index call).isSome = true) :
      ∃ event, DedupEvent.isArrival event = false ∧ (s.step event).isSome = true := by
    refine ⟨.advance index, rfl, ?_⟩
    rw [step, found]
    exact goes
  cases at_ : call.phase with
  | arrived =>
    apply advance
    cases there : s.inflight.lookup (dedupKey call.query) <;> simp [resolve, at_, there]
  | waiting req => exact absurd at_ (alone req)
  | resolving =>
    obtain ⟨query, request, phase⟩ := call
    cases at_
    refine ⟨.finish index { answer := none, err := none }, rfl, ?_⟩
    simp [step, found]
  | returned result =>
    rw [at_] at running
    cases running
  | _ =>
    apply advance
    simp [resolve, at_]

/-- A call with a request that is not closed can go on. -/
theorem Sound.exists_step_of_open (sound : Sound events s) (found : s.calls[index]? = some call)
    {req : InflightRequest} (made : call.request = some req) (open_ : req.done = false) :
    ∃ event, DedupEvent.isArrival event = false ∧ (s.step event).isSome = true := by
  have own := sound.calls index call found
  have running : call.phase.isReturned = false := by
    by_contra! back
    have closed := (own.kept (Bool.eq_true_of_not_eq_false back) req made).1
    rw [open_] at closed
    cases closed
  apply RequestDedup.exists_step found _ running
  intro leader at_
  have none_eq := own.request running
  rw [made, at_] at none_eq
  cases none_eq

/-- As long as a call has not returned, some call can go on. -/
theorem Sound.exists_step (sound : Sound events s) (found : s.calls[index]? = some call)
    (running : call.phase.isReturned = false) :
    ∃ event, DedupEvent.isArrival event = false ∧ (s.step event).isSome = true := by
  by_cases waits : ∃ req, call.phase = .waiting req
  · obtain ⟨leader, at_⟩ := waits
    obtain ⟨other, met, -, made, -⟩ := (sound.calls index call found).waiting leader at_
    obtain ⟨req, made⟩ := Option.isSome_iff_exists.mp made
    cases closed : req.done with
    | false => exact sound.exists_step_of_open met made closed
    | true =>
      obtain ⟨answer, err, done⟩ := req
      cases closed
      refine ⟨.advance index, rfl, ?_⟩
      simp [RequestDedup.step, found, RequestDedup.resolve, at_, met, made]
  · exact RequestDedup.exists_step found (fun req at_ => waits ⟨req, at_⟩) running

end Progress

/-! ## All runs -/

section Runs

variable {events : List DedupEvent} {s next : RequestDedup} {event : DedupEvent} {index : Nat}

/-- A request stays in the table until its own call takes it out. -/
theorem Sound.lookup_step (sound : Sound events s) (taken : s.step event = some next)
    {key : DedupKey} (there : s.inflight.lookup key = some index) :
    next.inflight.lookup key = some index ∨
      event = .advance index ∧ ∃ call outcome, s.calls[index]? = some call ∧
        call.phase = .closed outcome := by
  rcases RequestDedup.step_cases taken with
    ⟨q, rfl, rfl⟩ | ⟨other, call, moved, table, found, moves, rfl⟩
  · exact .inl there
  · have listed := moves.lookup_iff sound found key index
    by_cases same : index = other
    · subst same
      rw [if_pos rfl] at listed
      obtain ⟨own, registered⟩ := (sound.lookup_iff found key).mp there
      rcases moves.deregistered registered with after | ⟨rfl, outcome, at_⟩
      · exact .inl (listed.mpr ⟨own, after⟩)
      · exact .inr ⟨rfl, call, outcome, found, at_⟩
    · rw [if_neg same] at listed
      exact .inl (listed.mpr there)

theorem Sound.inflight_eq_empty (sound : Sound events s)
    (all : ∀ call ∈ s.calls, call.phase.isReturned = true) : s.inflight = ∅ := by
  apply FiniteMap.eq_empty_of_lookup
  intro key
  by_contra! there
  obtain ⟨index, there⟩ := Option.ne_none_iff_exists'.mp there
  obtain ⟨call, found, -, registered⟩ := (sound.entries key index).mp there
  have back := all call (List.mem_of_getElem? found)
  rw [Phase.isReturned_of_registered registered] at back
  cases back

end Runs

/-- Whatever the order of their steps: of calls with the same key one at a time has a query at the
resolver; a call returns what the resolver has returned for its key, no older than the call or
still in the table when it came in, under its own ID and question; a request is taken out of the
table by its own call only; with no call running the table is empty; and some call can go on as
long as one has not returned, for a bounded number of steps. -/
theorem dedup_run (events : List DedupEvent) (s : RequestDedup) (reached : Reaches events s) :
    Deduplicated events s := by
  have sound := reached.sound
  constructor
  case one_upstream =>
    intro i j first second atFirst atSecond running running' same
    -- both are in the table under the same key
    have there := (sound.lookup_iff atFirst (dedupKey second.query)).mpr
      ⟨same, by rw [running]; rfl⟩
    have there' := (sound.lookup_iff atSecond (dedupKey second.query)).mpr
      ⟨rfl, by rw [running']; rfl⟩
    exact Option.some.inj (there.symm.trans there')
  case one_outcome => exact sound.one_outcome
  case served =>
    intro index call result found back
    exact (sound.calls index call found).served result back
  case removes_own =>
    intro event next taken key index
    exact sound.lookup_step taken
  case empties => exact sound.inflight_eq_empty
  case proceeds =>
    intro stuck call member
    by_contra! running
    obtain ⟨index, found⟩ := List.mem_iff_getElem?.mp member
    obtain ⟨event, other, goes⟩ := sound.exists_step found (Bool.eq_false_of_not_eq_true running)
    rw [stuck event other] at goes
    cases goes
  case bounded =>
    intro more later run
    exact run.length_le RequestDedup.work RequestDedup.work_lt

def idQuery (id : UInt16) (name : Text) : CacheQuery where
  msg := .ofQuestion id name 1 classINET
  asked := List.cons_ne_nil _ _

/-- An answer to a query. -/
def sampleOutcome (id : UInt16) (name : Text) : Outcome where
  answer := some (Message.reply (.ofQuestion id name 1 classINET))
  err := none

/-- A second call comes in while the query is at the resolver, a third one after the request is
closed but before it is taken out of the table. -/
def sampleEvents : List DedupEvent :=
  [.arrive (idQuery 1 (text "a.test.")), .advance 0, .advance 0,
    .arrive (idQuery 2 (text "A.test.")), .advance 1,
    .finish 0 (sampleOutcome 1 (text "a.test.")), .advance 0, .advance 0, .advance 0,
    .arrive (idQuery 3 (text "A.TEST.")), .advance 2, .advance 0, .advance 0, .advance 2,
    .advance 1]

/-- All three return the answer with their own ID and question. -/
theorem three_calls_share_answer :
    ∃ s, Reaches sampleEvents s ∧
      s.calls.map (fun call => call.phase) =
        [.returned (sampleOutcome 1 (text "a.test.")), .returned (sampleOutcome 2 (text "A.test.")),
          .returned (sampleOutcome 3 (text "A.TEST."))] ∧
      Deduplicated sampleEvents s := by
  have run : Reaches sampleEvents _ := Run.of_foldlM rfl
  exact ⟨_, run, rfl, dedup_run sampleEvents _ run⟩

end RouteDns.Dedup
