import RouteDns.Blocklist.Load
import RouteDns.Program.Lines

/-!
# Loaders

A loader hands the lines of a list over as it reads them, from a file or from a server.  What
was handed over cannot be taken back, so a loader that gives up on a list resets the database
first.  A list from a server is written to a file while it is read; the file takes its place
only when the list has been read to its end.

A loader is followed by the calls it makes.  Whether a line is refused depends on the calls so
far.
-/

namespace RouteDns.Blocklist

open Dns

def newline : Byte := 10

def carriageReturn : Byte := 13

/-- `bufio.MaxScanTokenSize`, which is the size of the buffer as well. -/
def maxScanTokenSize : Nat := 65536

/-- What a reader gives: its data, whether the end comes with the last of them, and the error
with which it ends, if it breaks off. -/
structure Stream where
  bytes : List Byte
  together : Bool
  broken : Option Text

namespace Stream

def scan (r : Stream) : List Text × Bool :=
  Lines.scan newline carriageReturn maxScanTokenSize r.together r.bytes

/-- The lines a scanner hands over.  Of a stream that breaks off, the last may be a fragment. -/
def lines (r : Stream) : List Text :=
  r.scan.1

/-- What a scanner reports in the end. -/
def failure (r : Stream) : Option Text :=
  if r.scan.2 then r.broken else some (text "bufio.Scanner: token too long")

/-- All rules of a stream, if it can be read to its end. -/
def rules? (r : Stream) : Option (List Text) :=
  if r.failure = none then some r.lines else none

end Stream

/-- Why a load fails: a rule was refused, or the list could not be read. -/
inductive LoadError (ε : Type) where
  | refused (fault : ε)
  | failed (message : Text)

section Scan

variable {σ ε : Type}

/-- Hand lines over until one is refused. -/
def handOver (fn : σ → Text → σ × Option ε) : List Text → σ → σ × Option ε
  | [], state => (state, none)
  | line :: lines, state =>
    match fn state line with
    | (state, some fault) => (state, some fault)
    | (state, none) => handOver fn lines state

/-- The one place a list is read. -/
def scanRules (fn : σ → Text → σ × Option ε) (r : Stream) (state : σ) :
    σ × Option (LoadError ε) :=
  match handOver fn r.lines state with
  | (state, some fault) => (state, some (.refused fault))
  | (state, none) => (state, r.failure.map .failed)

def readRulesFile (fn : σ → Text → σ × Option ε) (file : Except Text Stream) (state : σ) :
    σ × Option (LoadError ε) :=
  match file with
  | .error message => (state, some (.failed message))
  | .ok r => scanRules fn r state

end Scan

/-- What happens when a file is read. -/
inductive FileOutcome where
  | unopened (message : Text)
  | breaks (after : Nat) (message : Text)
  | whole

/-- The stream of a file, which may be missing.  The end of a file is seen by reading on. -/
def FileOutcome.open_ (content : Option (List Byte)) : FileOutcome → Except Text Stream
  | .unopened message => .error message
  | .breaks after message =>
    match content with
    | none => .error (text "no such file or directory")
    | some bytes =>
      .ok { bytes := bytes.take after, together := false, broken := some message }
  | .whole =>
    match content with
    | none => .error (text "no such file or directory")
    | some bytes => .ok { bytes := bytes, together := false, broken := none }

/-- What comes of a request to a server. -/
inductive Response where
  | failed (message : Text)
  | answered (statusCode : Nat) (body : Stream)

/-- What happens when a file is to be replaced: no new one can be made, a write to it fails, it
cannot be completed or renamed, or it takes the place of the old one. -/
inductive CacheWrite where
  | unopened (message : Text)
  | breaks (after : Nat) (message : Text)
  | unfinished (message : Text)
  | renamed

def CacheWrite.opened : CacheWrite → Bool
  | .unopened _ => false
  | _ => true

/-- All that is done after the last write goes through. -/
def CacheWrite.finishes : CacheWrite → Bool
  | .unfinished _ => false
  | _ => true

/-- What happens in one load. -/
structure LoadOutcome where
  file : FileOutcome
  response : Response
  cacheWrite : CacheWrite

/-- The server answers with a list. -/
def LoadOutcome.Served (outcome : LoadOutcome) (body : Stream) : Prop :=
  ∃ statusCode, outcome.response = .answered statusCode body ∧ 200 ≤ statusCode ∧ statusCode ≤ 299

/-- How a load ends: it is completed, the process goes on without the list, or it fails.  A
caller sees no error in the first two cases. -/
inductive LoadResult (ε : Type) where
  | completed
  | continuing (error : LoadError ε)
  | failed (error : LoadError ε)

section Loaders

variable {ε : Type} (refusal : (calls : List LoadEvent) → Text → Option ε)

/-- Hand a line over. -/
def feed (calls : List LoadEvent) (line : Text) : List LoadEvent × Option ε :=
  (calls ++ [.rule line], refusal calls line)

/-- What a list that could not be read means. -/
def listFailed (allowFailure loaded : Bool) (calls : List LoadEvent) (error : LoadError ε) :
    List LoadEvent × LoadResult ε :=
  if !allowFailure || loaded then (calls, .failed error)
  else (calls ++ [.reset], .continuing error)

/-! ## Local files -/

structure FileLoader where
  allowFailure : Bool
  loaded : Bool

def newFileLoader (allowFailure : Bool) : FileLoader where
  allowFailure := allowFailure
  loaded := false

def FileLoader.load (l : FileLoader) (content : Option (List Byte)) (outcome : LoadOutcome) :
    FileLoader × List LoadEvent × LoadResult ε :=
  match readRulesFile (feed refusal) (outcome.file.open_ content) [] with
  | (calls, some error) => (l, listFailed l.allowFailure l.loaded calls error)
  | (calls, none) => ({ l with loaded := true }, calls, .completed)

/-! ## Servers -/

structure HTTPLoader where
  url : Text
  cacheDir : Text
  allowFailure : Bool
  fromDisk : Bool
  loaded : Bool

def newHTTPLoader (url cacheDir : Text) (allowFailure : Bool) : HTTPLoader where
  url := url
  cacheDir := cacheDir
  allowFailure := allowFailure
  fromDisk := cacheDir ≠ []
  loaded := false

/-- The file that is written, and the first error of a write. -/
structure Writer where
  written : List Byte
  writes : Nat
  cacheErr : Option Text

def Writer.new : Writer where
  written := []
  writes := 0
  cacheErr := none

/-- Write a text, unless a write has failed. -/
def Writer.write (outcome : CacheWrite) (s : Text) (w : Writer) : Writer :=
  if w.cacheErr.isSome then w
  else
    match outcome with
    | .breaks after message =>
      if w.writes = after then { w with cacheErr := some message }
      else { w with written := w.written ++ s, writes := w.writes + 1 }
    | _ => { w with written := w.written ++ s, writes := w.writes + 1 }

/-- Write a rule and hand it over. -/
def cacheRule (outcome : CacheWrite) (state : List LoadEvent × Writer) (rule : Text) :
    (List LoadEvent × Writer) × Option ε :=
  let w := (state.2.write outcome rule).write outcome [newline]
  let (calls, fault) := feed refusal state.1 rule
  ((calls, w), fault)

def cacheWhileReading (r : Stream) (outcome : CacheWrite) (calls : List LoadEvent) :
    (List LoadEvent × Writer) × Option (LoadError ε) :=
  scanRules (cacheRule refusal outcome) r (calls, Writer.new)

/-- The file after it was to be replaced: the new one takes its place if the list was read to
its end and every step of writing it went through. -/
def writeFileAtomic (content : Option (List Byte)) (outcome : CacheWrite) (w : Writer)
    (scanErr : Option (LoadError ε)) : Option (List Byte) :=
  if scanErr.isNone && w.cacheErr.isNone && outcome.finishes then some w.written else content

/-- Read a body and write it to a file on the way.  If no file can be made, the body is still
there to take; a file that cannot be completed is reported, and the load goes on. -/
def readAndCache (content : Option (List Byte)) (body : Stream) (outcome : CacheWrite)
    (calls : List LoadEvent) : Option (List Byte) × List LoadEvent × Option (LoadError ε) :=
  if outcome.opened then
    let ((calls, w), scanErr) := cacheWhileReading refusal body outcome calls
    (writeFileAtomic content outcome w scanErr, calls, scanErr)
  else (content, scanRules (feed refusal) body calls)

namespace HTTPLoader

/-- Read the list from the server. -/
def download (l : HTTPLoader) (content : Option (List Byte)) (outcome : LoadOutcome)
    (calls : List LoadEvent) : Option (List Byte) × List LoadEvent × Option (LoadError ε) :=
  match outcome.response with
  | .failed message => (content, calls, some (.failed message))
  | .answered statusCode body =>
    if statusCode < 200 ∨ statusCode > 299 then
      (content, calls, some (.failed (text "got unexpected status code " ++
        text (Nat.repr statusCode) ++ text " from " ++ l.url)))
    else if l.cacheDir = [] then (content, scanRules (feed refusal) body calls)
    else readAndCache refusal content body outcome.cacheWrite calls

/-- With a directory for copies the first load comes from the copy and falls back to the
server.  What the copy handed over is dropped first. -/
def read (l : HTTPLoader) (content : Option (List Byte)) (outcome : LoadOutcome) :
    Option (List Byte) × List LoadEvent × Option (LoadError ε) :=
  if l.fromDisk then
    match readRulesFile (feed refusal) (outcome.file.open_ content) [] with
    | (calls, none) => (content, calls, none)
    | (calls, some _) => l.download refusal content outcome (calls ++ [.reset])
  else l.download refusal content outcome []

def load (l : HTTPLoader) (content : Option (List Byte)) (outcome : LoadOutcome) :
    HTTPLoader × Option (List Byte) × List LoadEvent × LoadResult ε :=
  let read_ := { l with fromDisk := false }
  match l.read refusal content outcome with
  | (content, calls, some error) =>
    (read_, content, listFailed l.allowFailure l.loaded calls error)
  | (content, calls, none) => ({ read_ with loaded := true }, content, calls, .completed)

end HTTPLoader

/-! ## Either -/

inductive Loader where
  | file (l : FileLoader)
  | http (l : HTTPLoader)

namespace Loader

def allowFailure : Loader → Bool
  | .file l => l.allowFailure
  | .http l => l.allowFailure

def loaded : Loader → Bool
  | .file l => l.loaded
  | .http l => l.loaded

/-- A load, with the file the loader reads or keeps. -/
def load (content : Option (List Byte)) (outcome : LoadOutcome) :
    Loader → Loader × Option (List Byte) × List LoadEvent × LoadResult ε
  | .file l =>
    let (l, calls, result) := l.load refusal content outcome
    (.file l, content, calls, result)
  | .http l =>
    let (l, content, calls, result) := l.load refusal content outcome
    (.http l, content, calls, result)

/-- A loader may read a list from a stream in a load. -/
def Reads (content : Option (List Byte)) (outcome : LoadOutcome) (r : Stream) : Loader → Prop
  | .file _ => outcome.file.open_ content = .ok r
  | .http l => l.fromDisk ∧ outcome.file.open_ content = .ok r ∨ outcome.Served r

end Loader

/-! ## What a load hands over -/

variable {refusal} {content content' : Option (List Byte)} {outcome : LoadOutcome} {r : Stream}
  {calls calls' : List LoadEvent}

theorem handOver_feed {lines : List Text}
    (accepted : handOver (feed refusal) lines calls = (calls', none)) :
    calls' = calls ++ loadOf lines := by
  induction lines generalizing calls with
  | nil =>
    cases accepted
    simp [loadOf]
  | cons line lines ih =>
    unfold handOver at accepted
    cases refused : refusal calls line with
    | some fault => simp [feed, refused] at accepted
    | none =>
      simp only [feed, refused] at accepted
      rw [ih accepted]
      simp [loadOf]

/-- A stream that is read without an error hands all of its rules over. -/
theorem scanRules_feed (read : scanRules (feed refusal) r calls = (calls', none)) :
    ∃ rules, r.rules? = some rules ∧ calls' = calls ++ loadOf rules := by
  unfold scanRules at read
  split at read
  · cases read
  · rename_i state handed
    simp only [Prod.mk.injEq, Option.map_eq_none_iff] at read
    obtain ⟨rfl, whole⟩ := read
    exact ⟨r.lines, if_pos whole, handOver_feed handed⟩

theorem readRulesFile_feed {file : Except Text Stream}
    (read : readRulesFile (feed refusal) file calls = (calls', none)) :
    ∃ r rules, file = .ok r ∧ r.rules? = some rules ∧ calls' = calls ++ loadOf rules := by
  cases file with
  | error message => cases read
  | ok r =>
    obtain ⟨rules, whole, handed⟩ := scanRules_feed read
    exact ⟨r, rules, rfl, whole, handed⟩

/-! ### Copies -/

variable {cacheWrite : CacheWrite}

theorem Writer.write_fine {s : Text} {w : Writer} (fine : (w.write cacheWrite s).cacheErr = none) :
    w.cacheErr = none ∧ (w.write cacheWrite s).written = w.written ++ s := by
  unfold Writer.write at fine ⊢
  by_cases failed : w.cacheErr.isSome
  · rw [if_pos failed] at fine
    simp [fine] at failed
  · rw [if_neg failed] at fine ⊢
    refine ⟨by simpa using failed, ?_⟩
    cases cacheWrite with
    | breaks after message =>
      by_cases last : w.writes = after
      · simp [last] at fine
      · simp [last]
    | unopened message => rfl
    | unfinished message => rfl
    | renamed => rfl

/-- Rules are handed over the same way when they are written to a file, and the file is that of
the rules if no write fails. -/
theorem handOver_cacheRule {lines : List Text} {w w' : Writer} {fault : Option ε}
    (handed : handOver (cacheRule refusal cacheWrite) lines (calls, w) = ((calls', w'), fault)) :
    handOver (feed refusal) lines calls = (calls', fault) ∧
      (fault = none → w'.cacheErr = none →
        w.cacheErr = none ∧ w'.written = w.written ++ Lines.written newline lines) := by
  induction lines generalizing calls w with
  | nil =>
    cases handed
    exact ⟨rfl, fun _ fine => ⟨fine, by simp [Lines.written]⟩⟩
  | cons line lines ih =>
    unfold handOver at handed ⊢
    cases refused : refusal calls line with
    | some found =>
      simp only [cacheRule, feed, refused, Prod.mk.injEq] at handed ⊢
      obtain ⟨⟨rfl, -⟩, rfl⟩ := handed
      exact ⟨⟨rfl, rfl⟩, fun accepted => absurd accepted (Option.some_ne_none _)⟩
    | none =>
      simp only [cacheRule, feed, refused] at handed ⊢
      obtain ⟨same, copied⟩ := ih handed
      refine ⟨same, fun accepted fine => ?_⟩
      obtain ⟨fine, rest⟩ := copied accepted fine
      obtain ⟨fine, second⟩ := Writer.write_fine fine
      obtain ⟨fine, first⟩ := Writer.write_fine fine
      refine ⟨fine, ?_⟩
      rw [rest, second, first]
      simp [Lines.written]

theorem cacheWhileReading_feed {w : Writer}
    (read : cacheWhileReading refusal r cacheWrite calls = ((calls', w), none)) :
    ∃ rules, r.rules? = some rules ∧ calls' = calls ++ loadOf rules ∧
      (w.cacheErr = none → w.written = Lines.written newline rules) := by
  unfold cacheWhileReading scanRules at read
  split at read
  · cases read
  · rename_i state handed
    simp only [Prod.mk.injEq, Option.map_eq_none_iff] at read
    obtain ⟨rfl, whole⟩ := read
    obtain ⟨same, copied⟩ := handOver_cacheRule handed
    exact ⟨r.lines, if_pos whole, handOver_feed same, fun fine => (copied rfl fine).2⟩

/-- A file is left alone, or a whole list takes its place. -/
theorem readAndCache_feed
    (read : readAndCache refusal content r cacheWrite calls = (content', calls', none)) :
    ∃ rules, r.rules? = some rules ∧ calls' = calls ++ loadOf rules ∧
      (content' = content ∨ content' = some (Lines.written newline rules)) := by
  unfold readAndCache at read
  split at read
  · cases cached : cacheWhileReading refusal r cacheWrite calls with
    | mk state scanErr =>
      simp only [cached, Prod.mk.injEq] at read
      obtain ⟨rfl, rfl, rfl⟩ := read
      obtain ⟨rules, whole, handed, copied⟩ := cacheWhileReading_feed cached
      refine ⟨rules, whole, handed, ?_⟩
      unfold writeFileAtomic
      split
      · rename_i fine
        simp only [Option.isNone_none, Bool.true_and, Bool.and_eq_true,
          Option.isNone_iff_eq_none] at fine
        rw [copied fine.1]
        exact .inr rfl
      · exact .inl rfl
  · obtain ⟨rfl, scanned⟩ := Prod.mk.inj read
    obtain ⟨rules, whole, handed⟩ := scanRules_feed scanned
    exact ⟨rules, whole, handed, .inl rfl⟩

variable {error : LoadError ε}

theorem readAndCache_failed
    (read : readAndCache refusal content r cacheWrite calls = (content', calls', some error)) :
    content' = content := by
  unfold readAndCache at read
  split at read
  · cases cached : cacheWhileReading refusal r cacheWrite calls with
    | mk state scanErr =>
      simp only [cached, Prod.mk.injEq] at read
      obtain ⟨rfl, -, rfl⟩ := read
      rfl
  · exact (congrArg Prod.fst read).symm

/-! ### Loads -/

variable {l : HTTPLoader}

theorem HTTPLoader.download_feed
    (read : l.download refusal content outcome calls = (content', calls', none)) :
    ∃ body rules, outcome.Served body ∧ body.rules? = some rules ∧
      calls' = calls ++ loadOf rules ∧
      (content' = content ∨ content' = some (Lines.written newline rules)) := by
  unfold HTTPLoader.download at read
  split at read
  · cases read
  · rename_i statusCode body answered
    split at read
    · cases read
    · have served : outcome.Served body := ⟨statusCode, answered, by omega, by omega⟩
      split at read
      · obtain ⟨rfl, scanned⟩ := Prod.mk.inj read
        obtain ⟨rules, whole, handed⟩ := scanRules_feed scanned
        exact ⟨body, rules, served, whole, handed, .inl rfl⟩
      · obtain ⟨rules, whole, handed, copied⟩ := readAndCache_feed read
        exact ⟨body, rules, served, whole, handed, copied⟩

theorem HTTPLoader.download_failed
    (read : l.download refusal content outcome calls = (content', calls', some error)) :
    content' = content := by
  unfold HTTPLoader.download at read
  split at read
  · exact (congrArg Prod.fst read).symm
  · split at read
    · exact (congrArg Prod.fst read).symm
    · split at read
      · exact (congrArg Prod.fst read).symm
      · exact readAndCache_failed read

/-- A loader that reads a list without an error hands over all rules of one stream in its last
attempt. -/
theorem HTTPLoader.read_feed (read : l.read refusal content outcome = (content', calls, none)) :
    ∃ r rules, (Loader.http l).Reads content outcome r ∧ r.rules? = some rules ∧
      lastAttempt calls = rules ∧
      (content' = content ∨
        outcome.Served r ∧ content' = some (Lines.written newline rules)) := by
  unfold HTTPLoader.read at read
  split at read
  · rename_i fromDisk
    split at read
    · rename_i handed copy
      obtain ⟨rfl, rfl, -⟩ := by simpa only [Prod.mk.injEq] using read
      obtain ⟨r, rules, opened, whole, handed⟩ := readRulesFile_feed copy
      refine ⟨r, rules, .inl ⟨fromDisk, opened⟩, whole, ?_, .inl rfl⟩
      rw [handed]
      exact lastAttempt_loadOf rules
    · obtain ⟨body, rules, served, whole, handed, copied⟩ := HTTPLoader.download_feed read
      refine ⟨body, rules, .inr served, whole, ?_, copied.imp id fun new => ⟨served, new⟩⟩
      rw [handed, lastAttempt_append_loadOf, lastAttempt_append_reset]
      rfl
  · obtain ⟨body, rules, served, whole, handed, copied⟩ := HTTPLoader.download_feed read
    refine ⟨body, rules, .inr served, whole, ?_, copied.imp id fun new => ⟨served, new⟩⟩
    rw [handed]
    exact lastAttempt_loadOf rules

theorem HTTPLoader.read_failed
    (read : l.read refusal content outcome = (content', calls, some error)) :
    content' = content := by
  unfold HTTPLoader.read at read
  split at read
  · split at read
    · cases read
    · exact HTTPLoader.download_failed read
  · exact HTTPLoader.download_failed read

/-- What a load can do: hand over all rules of one stream, and perhaps keep a copy of them; drop
everything, if the loader may start without its list; or fail. -/
inductive Loads (content : Option (List Byte)) (outcome : LoadOutcome) (loader : Loader) :
    Loader → Option (List Byte) → List LoadEvent → LoadResult ε → Prop where
  | completed {after : Loader} {content' : Option (List Byte)} {calls : List LoadEvent}
      (r : Stream) (rules : List Text) (reads : loader.Reads content outcome r)
      (whole : r.rules? = some rules) (handed : lastAttempt calls = rules)
      (copied : content' = content ∨
        outcome.Served r ∧ content' = some (Lines.written newline rules))
      (loaded : after.loaded = true) (allows : after.allowFailure = loader.allowFailure) :
      Loads content outcome loader after content' calls .completed
  | continuing {after : Loader} {calls : List LoadEvent} (error : LoadError ε)
      (dropped : lastAttempt calls = []) (allowed : loader.allowFailure = true)
      (first : loader.loaded = false) (loaded : after.loaded = false)
      (allows : after.allowFailure = loader.allowFailure) :
      Loads content outcome loader after content calls (.continuing error)
  | failed {after : Loader} {calls : List LoadEvent} (error : LoadError ε)
      (loaded : after.loaded = loader.loaded) (allows : after.allowFailure = loader.allowFailure) :
      Loads content outcome loader after content calls (.failed error)

theorem loads_listFailed {loader after : Loader} (loaded : after.loaded = loader.loaded)
    (allows : after.allowFailure = loader.allowFailure) :
    Loads content outcome loader after content
      (listFailed loader.allowFailure loader.loaded calls error).1
      (listFailed loader.allowFailure loader.loaded calls error).2 := by
  unfold listFailed
  split
  · exact .failed error loaded allows
  · rename_i first
    simp only [Bool.or_eq_true, Bool.not_eq_true', not_or, Bool.not_eq_false,
      Bool.not_eq_true] at first
    exact .continuing error (lastAttempt_append_reset calls) first.1 first.2
      (loaded.trans first.2) allows

variable (refusal) in
theorem Loader.load_loads (loader : Loader) (content : Option (List Byte)) (outcome : LoadOutcome) :
    Loads content outcome loader (loader.load refusal content outcome).1
      (loader.load refusal content outcome).2.1 (loader.load refusal content outcome).2.2.1
      (loader.load refusal content outcome).2.2.2 := by
  cases loader with
  | file l =>
    simp only [Loader.load, FileLoader.load]
    cases read : readRulesFile (feed refusal) (outcome.file.open_ content) [] with
    | mk calls error =>
      cases error with
      | some error => exact loads_listFailed rfl rfl
      | none =>
        obtain ⟨r, rules, opened, whole, handed⟩ := readRulesFile_feed read
        refine .completed r rules opened whole ?_ (.inl rfl) rfl rfl
        rw [handed]
        exact lastAttempt_loadOf rules
  | http l =>
    simp only [Loader.load, HTTPLoader.load]
    cases read : l.read refusal content outcome with
    | mk content' rest =>
      cases rest with
      | mk calls error =>
        cases error with
        | some error =>
          rw [HTTPLoader.read_failed read]
          exact loads_listFailed rfl rfl
        | none =>
          obtain ⟨r, rules, reads, whole, handed, copied⟩ := HTTPLoader.read_feed read
          exact .completed r rules reads whole handed copied rfl rfl

end Loaders

end RouteDns.Blocklist
