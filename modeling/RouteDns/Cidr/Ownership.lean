import RouteDns.Program.Ledger

/-!
# Databases that own open files

A database of IP rules is a list of networks, which owns nothing, a location database, which
owns the handle of a memory-mapped file, or a group of databases.  A refresh builds a new
database and puts it in service; then it closes the old one.  A source that cannot be read
hands on the rules it has in a new instance with a handle of its own, so that the old one may
be closed, unless the file cannot be opened either.
-/

namespace RouteDns.Cidr

open Ledger

open scoped List

/-- A database by what it owns. -/
inductive Database where
  | cidr
  | located (handle : Nat)
  | multi (dbs : List Database)

mutual

/-- The handles that can be reached from a database. -/
def Database.handles : Database → List Nat
  | .cidr => []
  | .located handle => [handle]
  | .multi dbs => handlesOf dbs

def handlesOf : List Database → List Nat
  | [] => []
  | db :: dbs => db.handles ++ handlesOf dbs

end

/-- What happens when a source is reloaded: the rules load, they do not, or the file of a
location database cannot be opened in the first place.  In the latter two cases the file may
be opened again for the rules that are already there. -/
inductive Fate where
  | loads
  | refused (reopens : Bool)
  | missing (reopens : Bool)

/-- Two results of a reload in one: a new database, a replacement with an error, or an error
alone. -/
inductive Reloaded where
  | loaded (db : Database)
  | kept (db : Database)
  | lost

def Reloaded.handles : Reloaded → List Nat
  | .loaded db => db.handles
  | .kept db => db.handles
  | .lost => []

/-- What the process has done: the number of sources reloaded, the handles opened, and when
handles were opened and closed and databases put in service. -/
structure Process where
  calls : Nat
  next : Nat
  log : List (Entry Database)

namespace Process

def openFile (p : Process) : Nat × Process :=
  (p.next, { p with next := p.next + 1, log := p.log ++ [.opened p.next] })

/-- Close what a database owns, in order. -/
def close (handles : List Nat) (p : Process) : Process :=
  { p with log := p.log ++ handles.map .closed }

def called (p : Process) : Process :=
  { p with calls := p.calls + 1 }

end Process

/-- Open the file of a location database and load its rules; an error closes the file. -/
def newLocated (fate : Fate) (p : Process) : Option Database × Process :=
  match fate with
  | .missing _ => (none, p)
  | .refused _ =>
    let (handle, p) := p.openFile
    (none, p.close [handle])
  | .loads =>
    let (handle, p) := p.openFile
    (some (.located handle), p)

/-- The file of a location database can be opened for the rules that are already there. -/
def Fate.reopens : Fate → Bool
  | .loads => false
  | .refused reopens => reopens
  | .missing reopens => reopens

def reloadLocated (fate : Fate) (p : Process) : Reloaded × Process :=
  match newLocated fate p with
  | (some db, p) => (.loaded db, p)
  | (none, p) =>
    if fate.reopens then
      let (handle, p) := p.openFile
      (.kept (.located handle), p)
    else (.lost, p)

mutual

/-- Build a new instance of a database.  What becomes of the sources is decided one by one, in
the order in which they are reloaded. -/
def Database.reload (fates : Nat → Fate) : Database → Process → Reloaded × Process
  | .cidr, p =>
    match fates p.calls with
    | .loads => (.loaded .cidr, p.called)
    | _ => (.kept .cidr, p.called)
  | .located _, p => reloadLocated (fates p.calls) p.called
  | .multi dbs, p =>
    match reloadAll fates dbs [] p with
    | (none, p) => (.lost, p)
    | (some newDBs, p) => (.loaded (.multi newDBs), p)

/-- Gather the new instances of a group.  One that is lost ends it, and those gathered so far
are closed. -/
def reloadAll (fates : Nat → Fate) : List Database → (newDBs : List Database) → Process →
    Option (List Database) × Process
  | [], newDBs, p => (some newDBs, p)
  | db :: dbs, newDBs, p =>
    match db.reload fates p with
    | (.lost, p) => (none, p.close (handlesOf newDBs))
    | (.loaded n, p) => reloadAll fates dbs (newDBs ++ [n]) p
    | (.kept n, p) => reloadAll fates dbs (newDBs ++ [n]) p

end

/-- The database in service, and what the process has done. -/
structure Service where
  db : Database
  process : Process

/-- One round of the refresh loop. -/
def Service.refresh (fates : Nat → Fate) (s : Service) : Service :=
  match s.db.reload fates s.process with
  | (.lost, p) => { s with process := p }
  | (.kept reloaded, p) => { s with process := p.close reloaded.handles }
  | (.loaded reloaded, p) =>
    { db := reloaded
      process := Process.close s.db.handles { p with log := p.log ++ [.mark reloaded] } }

/-! ## What a reload opens and closes -/

theorem handlesOf_append (first second : List Database) :
    handlesOf (first ++ second) = handlesOf first ++ handlesOf second := by
  induction first with
  | nil => rfl
  | cons db first ih => simp [handlesOf, ih]

/-- A part of the program takes the process from one state to another, by entries that open
handles and close or hand on all of them. -/
def Yields (p p' : Process) (held : List Nat) : Prop :=
  ∃ entries, p'.log = p.log ++ entries ∧ Balanced p.next p'.next entries held

section Yields

variable {p p' p'' : Process} {held held' : List Nat}

theorem Yields.refl (p : Process) : Yields p p [] :=
  ⟨[], by simp, .nil p.next⟩

theorem Yields.called (p : Process) : Yields p p.called [] :=
  ⟨[], by simp [Process.called], .nil p.next⟩

theorem Yields.openFile (p : Process) : Yields p p.openFile.2 [p.next] :=
  ⟨[.opened p.next], rfl, .single p.next⟩

theorem Yields.trans (before : Yields p p' held) (after : Yields p' p'' held') :
    Yields p p'' (held ++ held') := by
  obtain ⟨entries, log, balanced⟩ := before
  obtain ⟨entries', log', balanced'⟩ := after
  exact ⟨entries ++ entries', by rw [log', log, List.append_assoc], balanced.append balanced'⟩

theorem Yields.close (yields : Yields p p' held) : Yields p (p'.close held) [] := by
  obtain ⟨entries, log, balanced⟩ := yields
  refine ⟨entries ++ held.map Entry.closed, ?_, balanced.closeAll⟩
  rw [Process.close, log, List.append_assoc]

theorem newLocated_yields (fate : Fate) (p : Process) :
    Yields p (newLocated fate p).2 (((newLocated fate p).1.map Database.handles).getD []) := by
  cases fate with
  | loads => exact Yields.openFile p
  | refused reopens => exact (Yields.openFile p).close
  | missing reopens => exact Yields.refl p

theorem reloadLocated_yields (fate : Fate) (p : Process) :
    Yields p (reloadLocated fate p).2 (reloadLocated fate p).1.handles := by
  have first := newLocated_yields fate p
  unfold reloadLocated
  cases built : newLocated fate p with
  | mk db p' =>
    rw [built] at first
    cases db with
    | some db => exact first
    | none =>
      by_cases reopens : fate.reopens
      · simp only [reopens, if_true]
        exact first.trans (Yields.openFile p')
      · simp only [reopens, Bool.false_eq_true, if_false]
        exact first

mutual

/-- A reload hands on what it opens and does not close. -/
theorem Database.reload_yields (fates : Nat → Fate) (db : Database) (p : Process) :
    Yields p (db.reload fates p).2 (db.reload fates p).1.handles := by
  cases db with
  | cidr =>
    unfold Database.reload
    split
    · exact Yields.called p
    · exact Yields.called p
  | located handle =>
    unfold Database.reload
    exact (Yields.called p).trans (reloadLocated_yields _ _)
  | multi dbs =>
    have gathered := reloadAll_yields fates dbs [] p p (Yields.refl p)
    unfold Database.reload
    cases outcome : reloadAll fates dbs [] p with
    | mk newDBs p' =>
      rw [outcome] at gathered
      cases newDBs with
      | none | some newDBs => exact gathered

/-- So does gathering the instances of a group. -/
theorem reloadAll_yields (fates : Nat → Fate) (dbs newDBs : List Database) (start p : Process)
    (gathered : Yields start p (handlesOf newDBs)) :
    Yields start (reloadAll fates dbs newDBs p).2
      (((reloadAll fates dbs newDBs p).1.map handlesOf).getD []) := by
  cases dbs with
  | nil => exact gathered
  | cons db dbs =>
    have reloaded := db.reload_yields fates p
    unfold reloadAll
    cases outcome : db.reload fates p with
    | mk result p' =>
      rw [outcome] at reloaded
      have together := gathered.trans reloaded
      cases result with
      | lost =>
        rw [Reloaded.handles, List.append_nil] at together
        exact together.close
      | loaded n | kept n =>
        apply reloadAll_yields fates dbs (newDBs ++ [n]) start p'
        rw [handlesOf_append]
        simpa [handlesOf, Reloaded.handles] using together

end

end Yields

/-! ## Accounts of a service -/

/-- A service with a new database; every handle has been opened once. -/
structure Start where
  db : Database
  next : Nat
  fresh : ∀ handle ∈ db.handles, handle < next
  distinct : db.handles.Nodup

def Start.service (start : Start) : Service where
  db := start.db
  process := { calls := 0, next := start.next, log := [] }

/-- A number of rounds of the refresh loop. -/
def Service.refreshes (fates : Nat → Fate) (s : Service) : (rounds : Nat) → Service
  | 0 => s
  | rounds + 1 => (s.refreshes fates rounds).refresh fates

/-- The handles ever opened. -/
def Start.everOpened (start : Start) (log : List (Entry Database)) : List Nat :=
  start.db.handles ++ openedIn log

/-- Between refreshes every handle that was ever opened can be reached from the database in
service, or it has been closed; no handle is both, and none is closed twice. -/
structure Accounted (start : Start) (s : Service) : Prop where
  inService : lastMark start.db s.process.log = s.db
  accounts : (closedIn s.process.log ++ s.db.handles).Perm (start.everOpened s.process.log)
  distinct : (start.everOpened s.process.log).Nodup
  bounded : ∀ handle ∈ start.everOpened s.process.log, handle < s.process.next

/-- Nothing that can be reached from the database in service is closed. -/
def Intact (start : Start) (log : List (Entry Database)) : Prop :=
  ∀ handle ∈ (lastMark start.db log).handles, handle ∉ closedIn log

section Accounts

variable {start : Start} {s : Service}

theorem Accounted.initial (start : Start) : Accounted start start.service where
  inService := rfl
  accounts := by simp [Start.service, Start.everOpened, closedIn, openedIn]
  distinct := by simpa [Start.service, Start.everOpened, openedIn] using start.distinct
  bounded := by simpa [Start.service, Start.everOpened, openedIn] using start.fresh

section

variable (accounted : Accounted start s)
include accounted

theorem Accounted.nodup :
    (closedIn s.process.log ++ s.db.handles).Nodup :=
  accounted.accounts.nodup_iff.mpr accounted.distinct

theorem Accounted.intact : Intact start s.process.log := by
  intro handle reachable closed
  rw [accounted.inService] at reachable
  exact (List.nodup_append.mp accounted.nodup).2.2 handle closed handle reachable rfl

/-- The accounts in the middle of a refresh: what was gathered is held by it. -/
theorem Accounted.extend {next : Nat} {entries : List (Entry Database)} {held : List Nat}
    (balanced : Balanced s.process.next next entries held) :
    (closedIn (s.process.log ++ entries) ++ (s.db.handles ++ held)).Perm
        (start.everOpened (s.process.log ++ entries)) ∧
      (start.everOpened (s.process.log ++ entries)).Nodup ∧
      ∀ handle ∈ start.everOpened (s.process.log ++ entries), handle < next := by
  have opened : start.everOpened (s.process.log ++ entries) =
      start.everOpened s.process.log ++ openedIn entries := by
    simp [Start.everOpened]
  have fresh : ∀ handle ∈ openedIn entries, s.process.next ≤ handle ∧ handle < next := by
    intro handle member
    apply balanced.mem_range
    rw [balanced.opened] at member
    exact balanced.closed.symm.subset member
  rw [opened]
  refine ⟨?_, ?_, ?_⟩
  · rw [closedIn_append, balanced.opened]
    calc
      (closedIn s.process.log ++ closedIn entries) ++ (s.db.handles ++ held)
      _ ~ (closedIn s.process.log ++ s.db.handles) ++ (closedIn entries ++ held) := by
          simp only [List.append_assoc]
          exact (List.perm_append_comm_assoc _ _ _).append_left _
      _ ~ _ := accounted.accounts.append balanced.closed
  · rw [List.nodup_append]
    refine ⟨accounted.distinct, ?_, ?_⟩
    · rw [balanced.opened]
      exact List.nodup_range'
    · rintro handle old _ new rfl
      have := accounted.bounded handle old
      have := fresh handle new
      omega
  · intro handle member
    rcases List.mem_append.mp member with old | new
    · have := accounted.bounded handle old
      have := balanced.ordered
      omega
    · exact (fresh handle new).2

/-- A refresh that puts nothing in service closes all it opens. -/
theorem Accounted.of_yields {p : Process} (yields : Yields s.process p []) :
    Accounted start { s with process := p } := by
  obtain ⟨entries, log, balanced⟩ := yields
  obtain ⟨accounts, distinct, bounded⟩ := accounted.extend balanced
  rw [List.append_nil, ← log] at accounts
  rw [← log] at distinct bounded
  refine ⟨?_, accounts, distinct, bounded⟩
  rw [log, lastMark_append, accounted.inService, lastMark_of_unmarked balanced.unmarked]

/-- A refresh that puts a new database in service closes the old one. -/
theorem Accounted.of_loaded {p : Process} {db : Database} (yields : Yields s.process p db.handles) :
    Accounted start
      { db := db,
        process := Process.close s.db.handles { p with log := p.log ++ [.mark db] } } := by
  obtain ⟨entries, log, balanced⟩ := yields
  obtain ⟨accounts, distinct, bounded⟩ := accounted.extend balanced
  rw [← log] at accounts distinct bounded
  have opened : start.everOpened (p.log ++ [.mark db] ++ s.db.handles.map .closed) =
      start.everOpened p.log := by
    simp [Start.everOpened, openedIn]
  have closed : closedIn (p.log ++ [.mark db] ++ s.db.handles.map .closed) =
      closedIn p.log ++ s.db.handles := by
    simp [closedIn]
  rw [Process.close]
  refine ⟨?_, ?_, ?_, ?_⟩
  · rw [lastMark_append, lastMark_map_closed, lastMark_append]
    rfl
  · rw [opened, closed, List.append_assoc]
    exact accounts
  · rw [opened]
    exact distinct
  · rw [opened]
    exact bounded

/-- At every moment of a run so far, the database in service was intact. -/
def AlwaysIntact (start : Start) (log : List (Entry Database)) : Prop :=
  ∀ moment, moment <+: log → Intact start moment

/-- Nothing in service is closed while a refresh gathers a new database. -/
theorem Accounted.alwaysIntact_gathering (always : AlwaysIntact start s.process.log) {p : Process}
    {held : List Nat} (yields : Yields s.process p held) : AlwaysIntact start p.log := by
  obtain ⟨entries, log, balanced⟩ := yields
  obtain ⟨accounts, distinct, -⟩ := accounted.extend balanced
  have apart := (List.nodup_append.mp (accounts.nodup_iff.mpr distinct)).2.2
  intro moment front
  rw [log] at front
  rcases List.prefix_or_prefix_of_prefix front (List.prefix_append _ entries) with before | after
  · exact always moment before
  -- Marks are set when a database is put in service, so the one of before still is.
  · obtain ⟨part, rfl⟩ := after
    have part_unmarked : ∀ value, Entry.mark value ∉ part := fun value member =>
      balanced.unmarked value
        (((List.prefix_append_right_inj _).mp front).subset member)
    intro handle reachable closed
    rw [lastMark_append, accounted.inService, lastMark_of_unmarked part_unmarked] at reachable
    exact apart handle (closedIn_subset_of_isPrefix front closed) handle
      (List.mem_append_left held reachable) rfl

end

/-- Nor is anything of the new database closed with the old one. -/
theorem Accounted.alwaysIntact_swapped {p : Process} {db : Database} {old : List Nat}
    (accounted : Accounted start
      { db := db, process := Process.close old { p with log := p.log ++ [.mark db] } })
    (always : AlwaysIntact start p.log) :
    AlwaysIntact start (p.log ++ [.mark db] ++ old.map .closed) := by
  intro moment front
  have split : p.log ++ [.mark db] ++ old.map Entry.closed =
      p.log ++ (.mark db :: old.map Entry.closed) := by
    simp
  have whole := front
  rw [split] at front
  rcases List.prefix_or_prefix_of_prefix front (List.prefix_append _ _) with before | after
  · exact always moment before
  · obtain ⟨part, rfl⟩ := after
    cases part with
    | nil => exact always _ (by simp)
    | cons entry part =>
      obtain ⟨rfl, inner⟩ :=
        List.cons_prefix_cons.mp ((List.prefix_append_right_inj _).mp front)
      have part_unmarked : ∀ value, Entry.mark value ∉ part := by
        intro value member
        simpa using inner.subset member
      intro handle reachable closed
      rw [lastMark_append] at reachable
      change handle ∈ (lastMark db part).handles at reachable
      rw [lastMark_of_unmarked part_unmarked] at reachable
      apply accounted.intact handle
      · rw [accounted.inService]
        exact reachable
      · exact closedIn_subset_of_isPrefix whole closed

/-- A refresh keeps the accounts, and nothing in service is closed while it is made. -/
theorem Accounted.refresh (fates : Nat → Fate) (accounted : Accounted start s)
    (always : AlwaysIntact start s.process.log) :
    Accounted start (s.refresh fates) ∧
      AlwaysIntact start (s.refresh fates).process.log := by
  have yields := s.db.reload_yields fates s.process
  unfold Service.refresh
  cases outcome : s.db.reload fates s.process with
  | mk reloaded p =>
    rw [outcome] at yields
    cases reloaded with
    | lost =>
      exact ⟨accounted.of_yields yields, accounted.alwaysIntact_gathering always yields⟩
    | kept reloaded =>
      exact ⟨accounted.of_yields yields.close,
        accounted.alwaysIntact_gathering always yields.close⟩
    | loaded reloaded =>
      have swapped := accounted.of_loaded yields
      exact ⟨swapped,
        swapped.alwaysIntact_swapped (accounted.alwaysIntact_gathering always yields)⟩

/-- Refreshes keep the accounts, and nothing in service is ever closed. -/
theorem Accounted.refreshes (start : Start) (fates : Nat → Fate) (rounds : Nat) :
    Accounted start (start.service.refreshes fates rounds) ∧
      AlwaysIntact start (start.service.refreshes fates rounds).process.log := by
  induction rounds with
  | zero =>
    refine ⟨Accounted.initial start, ?_⟩
    intro moment front
    rw [List.prefix_nil.mp front]
    exact (Accounted.initial start).intact
  | succ rounds ih => exact ih.1.refresh fates ih.2

theorem Accounted.mem_cases (accounted : Accounted start s) {handle : Nat}
    (opened : handle ∈ start.everOpened s.process.log) :
    (handle ∈ s.db.handles ∧ handle ∉ closedIn s.process.log) ∨
      (handle ∉ s.db.handles ∧ handle ∈ closedIn s.process.log) := by
  have apart := (List.nodup_append.mp accounted.nodup).2.2
  rcases List.mem_append.mp (accounted.accounts.symm.subset opened) with closed | reachable
  · exact .inr ⟨fun reachable => apart handle closed handle reachable rfl, closed⟩
  · exact .inl ⟨reachable, fun closed => apart handle closed handle reachable rfl⟩

/-- No handle is closed twice. -/
theorem Accounted.closedIn_nodup (accounted : Accounted start s)
    {moment : List (Entry Database)} (front : moment <+: s.process.log) :
    (closedIn moment).Nodup := by
  obtain ⟨rest, log⟩ := front
  have whole := accounted.nodup
  rw [← log, closedIn_append, List.append_assoc] at whole
  exact (List.nodup_append.mp whole).1

end Accounts

/-- The service after a number of refreshes. -/
def Start.after (start : Start) (fates : Nat → Fate) (rounds : Nat) : Service :=
  start.service.refreshes fates rounds

/-- Whatever becomes of the sources in each refresh: at every moment nothing that can be
reached from the database in service is closed, and no handle has been closed twice.  After
each refresh a handle that was ever opened can be reached from the database in service and is
open, or it cannot be reached and has been closed once.  While the next refresh is made, that
also holds of every handle that the refresh neither opened itself nor is about to release with
the database it replaces. -/
theorem handles_owned (start : Start) (fates : Nat → Fate) (rounds : Nat) :
    (∀ moment, moment <+: (start.after fates rounds).process.log →
      (∀ handle ∈ (lastMark start.db moment).handles, handle ∉ closedIn moment) ∧
        (closedIn moment).Nodup) ∧
      (∀ handle ∈ start.everOpened (start.after fates rounds).process.log,
        (handle ∈ (start.after fates rounds).db.handles ∧
            handle ∉ closedIn (start.after fates rounds).process.log) ∨
          (handle ∉ (start.after fates rounds).db.handles ∧
            (closedIn (start.after fates rounds).process.log).count handle = 1)) ∧
      ∀ moment, (start.after fates rounds).process.log <+: moment →
        moment <+: (start.after fates (rounds + 1)).process.log →
        ∀ handle ∈ start.everOpened moment,
          handle ∈ (lastMark start.db moment).handles ∨ (closedIn moment).count handle = 1 ∨
            handle ∉ start.everOpened (start.after fates rounds).process.log ∨
            handle ∈ (start.after fates rounds).db.handles := by
  obtain ⟨accounted, always⟩ := Accounted.refreshes start fates rounds
  refine ⟨?_, ?_, ?_⟩
  · intro moment front
    exact ⟨always moment front, accounted.closedIn_nodup front⟩
  · intro handle opened
    rcases accounted.mem_cases opened with reachable | ⟨unreachable, closed⟩
    · exact .inl reachable
    · exact .inr ⟨unreachable,
        List.count_eq_one_of_mem (accounted.closedIn_nodup (List.prefix_refl _)) closed⟩
  · intro moment before front handle _
    by_cases opened : handle ∈ start.everOpened (start.after fates rounds).process.log
    · rcases accounted.mem_cases opened with ⟨reachable, -⟩ | ⟨-, closed⟩
      · exact .inr (.inr (.inr reachable))
      · have later := (Accounted.refreshes start fates (rounds + 1)).1.closedIn_nodup front
        exact .inr (.inl (List.count_eq_one_of_mem later
          (closedIn_subset_of_isPrefix before closed)))
    · exact .inr (.inr (.inl opened))

/-- A location database in a group within a group. -/
def nestedStart : Start where
  db := .multi [.cidr, .multi [.located 0]]
  next := 1
  fresh := by decide
  distinct := by decide

/-- While a refresh gathers a new database, a file it has opened is neither in service nor
closed. -/
theorem opened_file_in_transit :
    ∃ moment, moment <+: (nestedStart.after (fun _ => .refused true) 1).process.log ∧
      1 ∈ nestedStart.everOpened moment ∧ 1 ∉ (lastMark nestedStart.db moment).handles ∧
      (closedIn moment).count 1 = 0 :=
  ⟨[.opened 1], ⟨_, rfl⟩, by decide, by decide, by decide⟩

-- The rules do not load: the file opened for them is closed, and a second one is kept.
example :
    (nestedStart.after (fun _ => .refused true) 1).db.handles = [2] ∧
      closedIn (nestedStart.after (fun _ => .refused true) 1).process.log = [1, 0] := by
  decide

end RouteDns.Cidr
