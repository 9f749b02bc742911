import RouteDns.Blocklist.Compact
import RouteDns.Blocklist.Hosts
import RouteDns.Blocklist.Loader
import RouteDns.Cidr.Db

/-!
# Databases in service

A database is loaded when the process starts and then again and again.  The one that a load
builds takes the place of the one in service; a load that fails leaves it alone.  Between loads
other programs may change the file that a loader reads or keeps.
-/

namespace RouteDns.Blocklist

open Dns

/-- The kinds of databases. -/
inductive ListKind where
  | domain (includeSubdomains : Bool)
  | compact (includeSubdomains : Bool)
  | hosts
  | cidr

inductive ListDatabase where
  | domain (db : DomainDB)
  | compact (db : DomainCompactDB)
  | hosts (db : HostsDB)
  | cidr (db : Cidr.CidrDB)

/-- Why a database of some kind is not built. -/
inductive ListFault where
  | names (fault : Fault)
  | networks (fault : Cidr.Fault)

/-- The libraries the kinds rest on. -/
structure Libraries where
  hosts : HostsLibrary
  net : Cidr.NetLibrary

def faultOf {ε α : Type} : Except ε α → Option ε
  | .ok _ => none
  | .error fault => some fault

namespace ListKind

variable (lib : Libraries) (name : Text)

/-- Build a database from the calls of a loader.  The seed is that of a compact one. -/
def new (seed : Nat) (events : List LoadEvent) : ListKind → Except ListFault ListDatabase
  | .domain includeSubdomains =>
    ((newDomainDB lib.hosts.toStringsLibrary name includeSubdomains events).map .domain).mapError
      .names
  | .compact includeSubdomains =>
    ((newDomainCompactDB lib.hosts.toStringsLibrary seed name includeSubdomains events).map
      .compact).mapError .names
  | .hosts => ((newHostsDB lib.hosts name events).map .hosts).mapError .names
  | .cidr => ((Cidr.newCidrDB lib.net name events).map .cidr).mapError .networks

/-- The error for a line that is handed over after some calls. -/
def refusal (seed : Nat) (calls : List LoadEvent) (line : Text) : ListKind → Option ListFault
  | .domain includeSubdomains =>
    (faultOf (domainRules lib.hosts.toStringsLibrary includeSubdomains DomainBuilder.new
      DomainBuilder.record (calls ++ [.rule line]))).map .names
  | .compact includeSubdomains =>
    (faultOf (domainRules lib.hosts.toStringsLibrary includeSubdomains Collected.new
      (fun c domain flag => .ok (c.record seed domain flag)) (calls ++ [.rule line]))).map .names
  | .hosts => none
  | .cidr => (faultOf (Cidr.newCidrDB lib.net name (calls ++ [.rule line]))).map .networks

end ListKind

/-- A database in service, its loader and the file of the loader. -/
structure Service where
  loader : Loader
  content : Option (List Byte)
  db : Option ListDatabase

/-- A load with the seed that is drawn for it, or a change of the file by another program. -/
inductive Action where
  | load (seed : Nat) (outcome : LoadOutcome)
  | change (content : Option (List Byte))

section Service

variable (lib : Libraries) (name : Text) (kind : ListKind)

namespace Service

/-- Load a database and put it in service, unless the load fails.  A database of networks hands
its own rules back with an error, but the ones in service are the same. -/
def reload (seed : Nat) (outcome : LoadOutcome) (s : Service) : Service × LoadResult ListFault :=
  let (loader, content, calls, result) :=
    s.loader.load (fun calls line => kind.refusal lib name seed calls line) s.content outcome
  match result with
  | .failed error => ({ s with loader := loader, content := content }, .failed error)
  | result =>
    match kind.new lib name seed calls with
    | .error fault =>
      ({ s with loader := loader, content := content }, .failed (.refused fault))
    | .ok db => ({ loader := loader, content := content, db := some db }, result)

/-- Perform actions; the results of the loads are collected. -/
def performAll : List Action → Service → Service × List (LoadResult ListFault)
  | [], s => (s, [])
  | .change content :: rest, s => performAll rest { s with content := content }
  | .load seed outcome :: rest, s =>
    let (s, result) := s.reload lib name kind seed outcome
    let (s, results) := performAll rest s
    (s, result :: results)

end Service

/-- How a loader is set up. -/
inductive LoaderConfig where
  | file (allowFailure : Bool)
  | http (url cacheDir : Text) (allowFailure : Bool)

namespace LoaderConfig

def allowFailure : LoaderConfig → Bool
  | .file allowFailure => allowFailure
  | .http _ _ allowFailure => allowFailure

def newLoader : LoaderConfig → Loader
  | .file allowFailure => .file (newFileLoader allowFailure)
  | .http url cacheDir allowFailure => .http (newHTTPLoader url cacheDir allowFailure)

/-- The service before the first load, and what its file holds. -/
def start (content : Option (List Byte)) (config : LoaderConfig) : Service where
  loader := config.newLoader
  content := content
  db := none

end LoaderConfig

end Service

/-! ## What is built -/

/-- A database depends on the last attempt only. -/
theorem ListKind.new_eq (lib : Libraries) (name : Text) (kind : ListKind) (seed : Nat)
    (events : List LoadEvent) :
    kind.new lib name seed events = kind.new lib name seed (loadOf (lastAttempt events)) := by
  have same : ∀ {σ ε : Type} (start : σ) (add : σ → Text → Except ε σ),
      load start add events = load start add (loadOf (lastAttempt events)) := by
    intro σ ε start add
    rw [load_eq, load_eq, lastAttempt_loadOf]
  cases kind with
  | domain includeSubdomains => simp only [ListKind.new, newDomainDB, domainRules, ← same]
  | compact includeSubdomains => simp only [ListKind.new, newDomainCompactDB, domainRules, ← same]
  | hosts => simp only [ListKind.new, newHostsDB, ← same]
  | cidr => simp only [ListKind.new, Cidr.newCidrDB, ← same]

/-! ## What a copy is read back as -/

/-- The rules of a file that can be read to its end. -/
def readBack (content : Option (List Byte)) : Option (List Text) :=
  match FileOutcome.whole.open_ content with
  | .ok r => r.rules?
  | .error _ => none

/-- What stands behind the last line break of a body fits into the buffer together with a line
break. -/
def LastLineFits (body : Stream) : Prop :=
  (Lines.dropCR carriageReturn (Lines.openLine newline body.bytes)).length < maxScanTokenSize

variable {rules : List Text} {count : Nat}

theorem Stream.rules?_eq_some {r : Stream} (whole : r.rules? = some rules) :
    r.scan = (rules, true) := by
  unfold Stream.rules? at whole
  split at whole
  · rename_i unfailed
    unfold Stream.failure at unfailed
    split at unfailed
    · rename_i ended
      exact Prod.ext (Option.some.inj whole) ended
    · cases unfailed
  · cases whole

theorem readBack_some (bytes : List Byte) :
    readBack (some bytes) = { bytes := bytes, together := false, broken := none : Stream }.rules? :=
  rfl

/-- A copy is read back as the rules it was made of, up to a carriage return at their ends, just
if the last line of the body was not too long for it. -/
theorem readBack_copy_iff {body : Stream} (whole : body.rules? = some rules) :
    readBack (some (Lines.written newline rules)) = some (rules.map (Lines.dropCR carriageReturn)) ↔
      LastLineFits body := by
  have scanned : Lines.scan newline carriageReturn maxScanTokenSize body.together body.bytes =
      (rules, true) := Stream.rules?_eq_some whole
  have free : ∀ rule ∈ rules, newline ∉ rule := by
    rw [show rules = (Lines.scan newline carriageReturn maxScanTokenSize body.together
      body.bytes).1 by rw [scanned]]
    exact Lines.newline_notMem_scan
  have short : (∀ rule ∈ rules, rule.length < maxScanTokenSize) ↔ LastLineFits body := by
    have lines := Lines.scan_short_iff (by decide) (congrArg Prod.snd scanned)
    rwa [scanned] at lines
  rw [← short, readBack_some]
  constructor
  · intro same
    exact (Lines.scan_written_ends_iff (by decide) free).mp
      (congrArg Prod.snd (Stream.rules?_eq_some same))
  · intro short
    have copied : Lines.scan newline carriageReturn maxScanTokenSize false
        (Lines.written newline rules) = _ := Lines.scan_written free short
    simp only [Stream.rules?, Stream.failure, Stream.lines, Stream.scan, copied, if_true]

/-! ## Whole runs -/

/-- A load builds a database from all rules of one stream, in order. -/
def BuiltFromOne (lib : Libraries) (name : Text) (kind : ListKind) (seed : Nat)
    (outcome : LoadOutcome) (s : Service) (db : ListDatabase) : Prop :=
  ∃ r rules, s.loader.Reads s.content outcome r ∧ r.rules? = some rules ∧
    kind.new lib name seed (loadOf rules) = .ok db

/-- A file is left alone, or a whole list from a server takes its place. -/
def KeptWhole (outcome : LoadOutcome) (before after : Option (List Byte)) : Prop :=
  after = before ∨ ∃ body rules, outcome.Served body ∧ body.rules? = some rules ∧
    after = some (Lines.written newline rules)

section Runs

variable {lib : Libraries} {name : Text} {kind : ListKind} {seed : Nat} {outcome : LoadOutcome}
  {s after : Service} {result : LoadResult ListFault}

/-- What a load does to a service. -/
structure Reloaded (lib : Libraries) (name : Text) (kind : ListKind) (seed : Nat)
    (outcome : LoadOutcome) (s after : Service) (result : LoadResult ListFault) : Prop where
  db :
    match result with
    | .failed _ => after.db = s.db
    | .completed => ∃ db, after.db = some db ∧ BuiltFromOne lib name kind seed outcome s db
    | .continuing _ => s.loader.allowFailure = true ∧ s.loader.loaded = false ∧
        ∃ db, after.db = some db ∧ kind.new lib name seed [] = .ok db
  content : KeptWhole outcome s.content after.content
  allows : after.loader.allowFailure = s.loader.allowFailure
  loaded : result = .completed ∨ s.loader.loaded = true → after.loader.loaded = true

theorem Service.reload_reloaded (ran : s.reload lib name kind seed outcome = (after, result)) :
    Reloaded lib name kind seed outcome s after result := by
  have loads := Loader.load_loads (fun calls line => kind.refusal lib name seed calls line)
    s.loader s.content outcome
  unfold Service.reload at ran
  revert ran
  generalize s.loader.load (fun calls line => kind.refusal lib name seed calls line) s.content
    outcome = load at loads
  obtain ⟨loader, content, calls, loadResult⟩ := load
  intro ran
  cases loads with
  | failed error loaded allows =>
    cases ran
    exact ⟨rfl, .inl rfl, allows, fun known => loaded.trans (known.resolve_left nofun)⟩
  | completed r rules reads whole handed copied loaded allows =>
    have kept : KeptWhole outcome s.content content :=
      copied.imp id fun ⟨served, new⟩ => ⟨r, rules, served, whole, new⟩
    simp only [kind.new_eq lib name seed calls, handed] at ran
    cases built : kind.new lib name seed (loadOf rules) with
    | error fault =>
      rw [built] at ran
      cases ran
      exact ⟨rfl, kept, allows, fun _ => loaded⟩
    | ok db =>
      rw [built] at ran
      cases ran
      exact ⟨⟨db, rfl, r, rules, reads, whole, built⟩, kept, allows, fun _ => loaded⟩
  | continuing error dropped allowed first loaded allows =>
    simp only [kind.new_eq lib name seed calls, dropped] at ran
    cases built : kind.new lib name seed (loadOf []) with
    | error fault =>
      rw [built] at ran
      cases ran
      exact ⟨rfl, .inl rfl, allows, fun known => by simp [first] at known⟩
    | ok db =>
      rw [built] at ran
      cases ran
      exact ⟨⟨allowed, first, db, rfl, built⟩, .inl rfl, allows,
        fun known => by simp [first] at known⟩

theorem Service.reload_of_completed {loader : Loader} {content : Option (List Byte)}
    {calls : List LoadEvent} {db : ListDatabase}
    (loaded : s.loader.load (fun calls line => kind.refusal lib name seed calls line) s.content
      outcome = (loader, content, calls, .completed))
    (built : kind.new lib name seed calls = .ok db) :
    s.reload lib name kind seed outcome =
      ({ loader := loader, content := content, db := some db }, .completed) := by
  simp only [Service.reload, loaded, built]

/-- A loader remembers that a load was completed. -/
theorem Service.performAll_loaded {actions : List Action} {results : List (LoadResult ListFault)}
    (ran : s.performAll lib name kind actions = (after, results)) :
    after.loader.allowFailure = s.loader.allowFailure ∧
      (.completed ∈ results ∨ s.loader.loaded = true → after.loader.loaded = true) := by
  induction actions generalizing s results with
  | nil =>
    cases ran
    exact ⟨rfl, fun known => known.resolve_left List.not_mem_nil⟩
  | cons action rest ih =>
    cases action with
    | change content =>
      have changed : { s with content := content }.performAll lib name kind rest =
          (after, results) := ran
      have kept := ih changed
      exact kept
    | load seed outcome =>
      cases reloaded : s.reload lib name kind seed outcome with
      | mk next result =>
        cases performed : next.performAll lib name kind rest with
        | mk last later =>
          simp only [Service.performAll, reloaded, performed] at ran
          cases ran
          have step := Service.reload_reloaded reloaded
          obtain ⟨allows, loaded⟩ := ih performed
          refine ⟨allows.trans step.allows, fun known => loaded ?_⟩
          rcases known with known | known
          · rcases List.mem_cons.mp known with now | later
            · exact .inr (step.loaded (.inl now.symm))
            · exact .inl later
          · exact .inr (step.loaded (.inr known))

end Runs

/-- Every load in every sequence of loads of a database, whatever comes of each read: it fails
and leaves the database in service alone, or it puts one in service that was built from all
rules of one source in order, or an empty one, if the loader may start without its list and no
load was completed before.  The file of the loader is left alone, or replaced by the copy of a
whole list.  Such a copy is read back as the rules that were downloaded, up to a carriage return
at their ends, just if what stands behind the last line break of the list was not too long. -/
theorem loads_whole_lists (lib : Libraries) (name : Text) (kind : ListKind)
    (config : LoaderConfig) (content : Option (List Byte)) (actions : List Action) (seed : Nat)
    (outcome : LoadOutcome) :
    let run := (config.start content).performAll lib name kind actions
    let load := run.1.reload lib name kind seed outcome
    (match load.2 with
      | .failed _ => load.1.db = run.1.db
      | .completed => ∃ db, load.1.db = some db ∧
          BuiltFromOne lib name kind seed outcome run.1 db
      | .continuing _ => config.allowFailure = true ∧ .completed ∉ run.2 ∧
          ∃ db, load.1.db = some db ∧ kind.new lib name seed [] = .ok db) ∧
      (load.1.content = run.1.content ∨ ∃ body rules, outcome.Served body ∧
        body.rules? = some rules ∧ load.1.content = some (Lines.written newline rules) ∧
        (readBack load.1.content = some (rules.map (Lines.dropCR carriageReturn)) ↔
          LastLineFits body)) := by
  intro run load
  have step : Reloaded lib name kind seed outcome run.1 load.1 load.2 :=
    Service.reload_reloaded rfl
  obtain ⟨allows, loaded⟩ : run.1.loader.allowFailure = config.newLoader.allowFailure ∧ _ :=
    Service.performAll_loaded (rfl : (config.start content).performAll lib name kind actions = _)
  have sameConfig : config.newLoader.allowFailure = config.allowFailure := by
    cases config <;> rfl
  refine ⟨?_, ?_⟩
  · have db := step.db
    cases result : load.2 with
    | failed error | completed =>
      rw [result] at db
      exact db
    | continuing error =>
      rw [result] at db
      obtain ⟨allowed, first, built⟩ := db
      refine ⟨sameConfig.symm.trans (allows.symm.trans allowed), fun earlier => ?_, built⟩
      rw [loaded (.inl earlier)] at first
      cases first
  · rcases step.content with same | ⟨body, rules, served, whole, copied⟩
    · exact .inl same
    · exact .inr ⟨body, rules, served, whole, copied, copied ▸ readBack_copy_iff whole⟩

/-- The libraries, as far as ASCII goes; no address can be read. -/
def asciiLibraries : Libraries where
  hosts :=
    { asciiStrings with
      fields := fun line => [line]
      parseIP := fun _ => none
      reverseAddr := fun _ => none }
  net :=
    { trimSpace := trimBlanks
      parseCIDR := fun _ => .error (text "invalid CIDR address")
      ipString := fun ip => ip }

/-- A comment of one line, without a line break. -/
def commentLine (count : Nat) : Text :=
  List.replicate count (byteOf '#') ++ [byteOf '#']

/-- A server that gives a body and tells its length, so that the end comes with the last of
it. -/
def servedBody (bytes : List Byte) : Stream where
  bytes := bytes
  together := true
  broken := none

def servedOutcome (bytes : List Byte) : LoadOutcome where
  file := .whole
  response := .answered 200 (servedBody bytes)
  cacheWrite := .renamed

theorem mem_commentLine {byte : Byte} (member : byte ∈ commentLine count) : byte = byteOf '#' := by
  rcases List.mem_append.mp member with member | member
  · exact List.eq_of_mem_replicate member
  · exact List.mem_singleton.mp member

theorem newline_notMem_commentLine (count : Nat) : newline ∉ commentLine count :=
  fun member => absurd (mem_commentLine member) (by decide)

theorem dropCR_commentLine (count : Nat) :
    Lines.dropCR carriageReturn (commentLine count) = commentLine count := by
  rw [Lines.dropCR, commentLine, List.getLast?_concat, if_neg (by decide)]

section

variable (full : count + 1 = maxScanTokenSize)
include full

/-- A comment as long as the buffer is a line of its own. -/
theorem scan_commentLine : (servedBody (commentLine count)).scan = ([commentLine count], true) := by
  have single : Lines.scan newline carriageReturn maxScanTokenSize true (commentLine count) =
      ([Lines.dropCR carriageReturn (commentLine count)], true) :=
    Lines.scan_single (newline_notMem_commentLine count)
      (.inr ⟨rfl, by rw [List.length_replicate]; exact full⟩)
  rwa [dropCR_commentLine] at single

theorem rules?_commentLine :
    (servedBody (commentLine count)).rules? = some [commentLine count] := by
  simp only [Stream.rules?, Stream.failure, Stream.lines, scan_commentLine full]
  rfl

theorem not_lastLineFits_commentLine : ¬ LastLineFits (servedBody (commentLine count)) := by
  have length : (commentLine count).length = count + 1 := by simp [commentLine]
  rw [LastLineFits, servedBody, Lines.openLine_of_free (newline_notMem_commentLine count),
    dropCR_commentLine, length, full]
  exact Nat.lt_irrefl _

end

/-- A hosts file with such a comment is loaded, and its copy is kept. -/
theorem reload_commentLine (lib : Libraries) (name : Text) (full : count + 1 = maxScanTokenSize) :
    ∃ after, ((LoaderConfig.http [] (text "dir") false).start none).reload lib name .hosts 0
        (servedOutcome (commentLine count)) = (after, .completed) ∧
      after.content = some (Lines.written newline [commentLine count]) := by
  let refusal := fun calls line => ListKind.hosts.refusal lib name 0 calls line
  have scanned := scan_commentLine full
  have lines : (servedBody (commentLine count)).lines = [commentLine count] :=
    congrArg Prod.fst scanned
  have failure : (servedBody (commentLine count)).failure = none :=
    if_pos (congrArg Prod.snd scanned)
  have cached : cacheWhileReading refusal (servedBody (commentLine count)) .renamed [.reset] =
      (([.reset, .rule (commentLine count)],
        { written := commentLine count ++ [newline], writes := 2, cacheErr := none }), none) := by
    rw [cacheWhileReading, scanRules, lines, failure]
    rfl
  have read : (newHTTPLoader [] (text "dir") false).read refusal none
      (servedOutcome (commentLine count)) =
        (some (Lines.written newline [commentLine count]), [.reset, .rule (commentLine count)],
          none) := by
    change readAndCache refusal none (servedBody (commentLine count)) .renamed [.reset] = _
    rw [readAndCache, cached]
    simp [CacheWrite.opened, CacheWrite.finishes, writeFileAtomic, Lines.written]
  have loaded : ((LoaderConfig.http [] (text "dir") false).start none).loader.load refusal none
      (servedOutcome (commentLine count)) =
        (.http { newHTTPLoader [] (text "dir") false with fromDisk := false, loaded := true },
          some (Lines.written newline [commentLine count]), [.reset, .rule (commentLine count)],
          .completed) := by
    simp only [LoaderConfig.start, LoaderConfig.newLoader, Loader.load, HTTPLoader.load, read]
  exact ⟨_, Service.reload_of_completed loaded rfl, rfl⟩

/-- The copy of a comment as long as the buffer cannot be read. -/
theorem long_comment_lost :
    ∃ after, ((LoaderConfig.http [] (text "dir") false).start none).reload asciiLibraries
        (text "list") .hosts 0 (servedOutcome (commentLine 65535)) = (after, .completed) ∧
      after.content = some (Lines.written newline [commentLine 65535]) ∧
      (servedBody (commentLine 65535)).rules? = some [commentLine 65535] ∧
      readBack after.content ≠
        some ([commentLine 65535].map (Lines.dropCR carriageReturn)) := by
  have full : 65535 + 1 = maxScanTokenSize := rfl
  have whole := rules?_commentLine full
  obtain ⟨after, reloaded, copied⟩ := reload_commentLine asciiLibraries (text "list") full
  refine ⟨after, reloaded, copied, whole, ?_⟩
  rw [copied]
  exact fun same => not_lastLineFits_commentLine full ((readBack_copy_iff whole).mp same)

end RouteDns.Blocklist
