import TimeChamp.Lib.Pool
import TimeChamp.Buffer.DB
import TimeChamp.Sync.Breaker

/-!
# The effects of the sync code

What `internal/sync` and the maintenance code of `internal/buffer` do to the world, one effect per statement that can
be interleaved with another goroutine: a breaker operation under its mutex, one SQLite statement, one HTTP exchange.

* `Op` and `Reply` : the effects and their answers; `Agent α` the programs over them;
* `World` : the breaker, the buffer, and the wait groups of spawned goroutines;
* `exec` : what an effect does, given the `Choice` of the outside (clock, replies, failures).
-/

namespace TimeChamp.Sync
open TimeChamp.Lib TimeChamp.Buffer

/-! ## The wire format -/

structure ActivityEventDTO where
  employeeID : String
  orgID : String
  appName : String
  windowTitle : String
  url : String
  category : String
  durationMs : Int
  startedAt : Int
  endedAt : Int
deriving DecidableEq

structure KeystrokeEventDTO where
  employeeID : String
  orgID : String
  keysPerMin : Int
  mousePerMin : Int
  recordedAt : Int
deriving DecidableEq

structure MetricsEventDTO where
  employeeID : String
  orgID : String
  cpuPercent : UInt64
  memUsedMB : UInt64
  memTotalMB : UInt64
  agentCPUPercent : UInt64
  agentMemMB : UInt64
  recordedAt : Int
deriving DecidableEq

/-- The bodies the agent posts: the three payloads, the screenshot metadata, and `struct{}{}`. -/
inductive Body where
  | activityPayload (events : List ActivityEventDTO)
  | keystrokePayload (events : List KeystrokeEventDTO)
  | metricsPayload (events : List MetricsEventDTO)
  | screenshotMeta (s3Key : String) (capturedAt fileSizeBytes : Int)
  | empty
deriving DecidableEq

/-- A POST. `rows` names the buffer rows the body was built from; it is not sent. -/
structure Request where
  path : String
  body : Body
  rows : List (TableName × Nat)
deriving DecidableEq

/-- The answer to a request for an upload URL: the status, the error of reading the body, and what decoding it gives. -/
structure UploadURLReply where
  status : Nat
  body : String
  readErr : Option String
  decodeErr : Option String
  dataUploadURL : String
  dataS3Key : String
  uploadURL : String
  s3Key : String

inductive StatReply where
  | found (size : Int)
  | notExist
  | failed

/-! ## Effects -/

/-- The places of the source that ask `IsAvailable`. -/
inductive Site where
  | post
  | flush (t : TableName)
  | screenshotRetry
  | burst
  | syncTick
deriving DecidableEq

/-- The goroutines of the sync tick. -/
inductive Task where
  | flushActivity
  | flushKeystrokes
  | flushScreenshots
  | flushMetrics
deriving DecidableEq

inductive Op where
  | isAvailable (site : Site)
  | isBlocked
  | recordFailure
  | recordSuccess
  | releaseProbe
  | resetCircuit
  | marshal (body : Body)
  | newRequest (path : String)
  | post (req : Request)
  | getUploadURL (filename : String)
  | putPresigned (url : String)
  | readFile (path : String)
  | stat (path : String)
  | remove (path : String)
  | listUnsynced (t : TableName) (limit : Nat)
  | deleteByIDs (t : TableName) (ids : List Nat)
  | insert (t : TableName) (rows : List (Row t))
  | countUnsynced (t : TableName)
  /-- `limit` is what the overflow was computed from; the statement does not mention it. -/
  | trimOldest (t : TableName) (limit : Int) (overflow : Nat)
  | pruneBefore (t : TableName) (cutoff : Int)
  | now
  /-- How many rounds of an unbounded loop the run goes through at most. -/
  | rounds
  /-- Still in a loop whose rounds are used up. -/
  | diverge
  | newWaitGroup
  | go (wg : Nat) (task : Task)
  | done (wg : Nat)
  | wait (wg : Nat)

/-- The answer to each effect; errors are their texts. -/
abbrev Reply : Op → Type
  | .isAvailable _ | .isBlocked => Bool
  | .recordFailure | .recordSuccess | .releaseProbe | .resetCircuit => Unit
  | .marshal _ | .newRequest _ | .readFile _ => Except String Unit
  | .post _ | .putPresigned _ => Except String Nat
  | .getUploadURL _ => Except String UploadURLReply
  | .stat _ => StatReply
  | .remove _ => Unit
  | .listUnsynced t _ => Except String (List (Row t))
  | .countUnsynced _ => Except String Nat
  | .deleteByIDs .. | .insert .. | .trimOldest .. | .pruneBefore .. => Except String Unit
  | .now => Int
  | .rounds | .newWaitGroup => Nat
  | .diverge => Empty
  | .go .. | .done _ | .wait _ => Unit

/-- Programs of the agent. -/
abbrev Agent (α : Type) := Prog Op Reply α

/-! Each effect as a program of its own. -/

namespace Agent
abbrev isAvailable (site : Site) : Agent Bool := .perform (E := Op) (.isAvailable site)
abbrev isBlocked : Agent Bool := .perform (E := Op) .isBlocked
abbrev recordFailure : Agent Unit := .perform (E := Op) .recordFailure
abbrev recordSuccess : Agent Unit := .perform (E := Op) .recordSuccess
abbrev releaseProbe : Agent Unit := .perform (E := Op) .releaseProbe
abbrev resetCircuit : Agent Unit := .perform (E := Op) .resetCircuit
abbrev marshal (body : Body) : Agent (Except String Unit) := .perform (E := Op) (.marshal body)
abbrev newRequest (path : String) : Agent (Except String Unit) := .perform (E := Op) (.newRequest path)
abbrev httpPost (req : Request) : Agent (Except String Nat) := .perform (E := Op) (.post req)
abbrev httpGetUploadURL (filename : String) : Agent (Except String UploadURLReply) :=
  .perform (E := Op) (.getUploadURL filename)
abbrev httpPut (url : String) : Agent (Except String Nat) := .perform (E := Op) (.putPresigned url)
abbrev readFile (path : String) : Agent (Except String Unit) := .perform (E := Op) (.readFile path)
abbrev stat (path : String) : Agent StatReply := .perform (E := Op) (.stat path)
abbrev remove (path : String) : Agent Unit := .perform (E := Op) (.remove path)
abbrev listUnsynced (t : TableName) (limit : Nat) : Agent (Except String (List (Row t))) :=
  .perform (E := Op) (.listUnsynced t limit)
abbrev execDelete (t : TableName) (ids : List Nat) : Agent (Except String Unit) := .perform (E := Op) (.deleteByIDs t ids)
abbrev insert (t : TableName) (rows : List (Row t)) : Agent (Except String Unit) := .perform (E := Op) (.insert t rows)
abbrev countUnsynced (t : TableName) : Agent (Except String Nat) := .perform (E := Op) (.countUnsynced t)
abbrev trimOldest (t : TableName) (limit : Int) (overflow : Nat) : Agent (Except String Unit) :=
  .perform (E := Op) (.trimOldest t limit overflow)
abbrev pruneBefore (t : TableName) (cutoff : Int) : Agent (Except String Unit) :=
  .perform (E := Op) (.pruneBefore t cutoff)
abbrev now : Agent Int := .perform (E := Op) .now
abbrev rounds : Agent Nat := .perform (E := Op) .rounds
abbrev newWaitGroup : Agent Nat := .perform (E := Op) .newWaitGroup
abbrev go (wg : Nat) (task : Task) : Agent Unit := .perform (E := Op) (.go wg task)
abbrev done (wg : Nat) : Agent Unit := .perform (E := Op) (.done wg)
abbrev wait (wg : Nat) : Agent Unit := .perform (E := Op) (.wait wg)

/-- Never returns. -/
def diverge {α : Type} : Agent α := .op .diverge fun never => never.elim
end Agent

/-! ## The world -/

/-- The shared state: breaker, buffer, the spawned goroutines not yet scheduled, and for each of a wait group's
goroutines not yet done, one entry of the group. -/
structure World where
  client : Client
  db : DB
  ready : List (Nat × Task)
  outstanding : List Nat
  nextWaitGroup : Nat

def World.start (db : DB) : World := ⟨newClient, db, [], [], 0⟩

/-- What the outside decides about one effect: the clock, whether it fails and how, and what it answers. -/
structure Choice where
  now : Int := 0
  error : Option String := none
  status : Nat := 200
  number : Nat := 0
  upload : UploadURLReply := ⟨200, "", none, none, "", "", "", ""⟩
  stat : StatReply := .found 0

/-- A result that fails with the error the outside chose. -/
def Choice.fallible {α : Type} (ch : Choice) (a : α) : Except String α :=
  match ch.error with
  | some err => .error err
  | none => .ok a

theorem Choice.fallible_ok {α : Type} {ch : Choice} {a b : α} : ch.fallible a = .ok b ↔ ch.error = none ∧ a = b := by
  unfold fallible
  cases ch.error <;> simp

/-- A statement that changes the buffer unless it fails. -/
def World.statement (w : World) (ch : Choice) (db : DB) : Except String Unit × World :=
  (ch.fallible (), if ch.error = none then { w with db } else w)

/-- One effect; `none` while it blocks. -/
def exec (ch : Choice) : (e : Op) → World → Option (Reply e × World)
  | .isAvailable _, w => some ((w.client.isAvailable ch.now).1, { w with client := (w.client.isAvailable ch.now).2 })
  | .isBlocked, w => some (w.client.isBlocked ch.now, w)
  | .recordFailure, w => some ((), { w with client := w.client.recordFailure ch.now })
  | .recordSuccess, w => some ((), { w with client := w.client.recordSuccess })
  | .releaseProbe, w => some ((), { w with client := w.client.releaseProbe })
  | .resetCircuit, w => some ((), { w with client := w.client.resetCircuit })
  | .marshal _, w => some (ch.fallible (), w)
  | .newRequest _, w => some (ch.fallible (), w)
  | .post _, w => some (ch.fallible ch.status, w)
  | .getUploadURL _, w => some (ch.fallible ch.upload, w)
  | .putPresigned _, w => some (ch.fallible ch.status, w)
  | .readFile _, w => some (ch.fallible (), w)
  | .stat _, w => some (ch.stat, w)
  | .remove _, w => some ((), w)
  | .listUnsynced t limit, w => some (ch.fallible (w.db.listUnsynced t limit), w)
  | .deleteByIDs t ids, w => some (w.statement ch (w.db.deleteByIDs t ids))
  | .insert t rows, w => some (w.statement ch (w.db.insert t rows))
  | .countUnsynced t, w => some (ch.fallible (w.db.countUnsynced t), w)
  | .trimOldest t _ overflow, w => some (w.statement ch (w.db.trimOldest t overflow))
  | .pruneBefore t cutoff, w => some (w.statement ch (w.db.pruneBefore t cutoff))
  | .now, w => some (ch.now, w)
  | .rounds, w => some (ch.number, w)
  | .diverge, _ => none
  | .newWaitGroup, w => some (w.nextWaitGroup, { w with nextWaitGroup := w.nextWaitGroup + 1 })
  | .go wg task, w => some ((), { w with ready := w.ready ++ [(wg, task)], outstanding := wg :: w.outstanding })
  | .done wg, w => some ((), { w with outstanding := w.outstanding.erase wg })
  | .wait wg, w => if wg ∈ w.outstanding then none else some ((), w)

/-! ### What an effect changes -/

/-- What an effect does to the breaker. -/
def Op.onClient (e : Op) (now : Int) (c : Client) : Client :=
  match e with
  | .isAvailable _ => (c.isAvailable now).2
  | .recordFailure => c.recordFailure now
  | .recordSuccess => c.recordSuccess
  | .releaseProbe => c.releaseProbe
  | .resetCircuit => c.resetCircuit
  | _ => c

/-- What an effect does to the buffer, when it does not fail. -/
def Op.onDB (e : Op) (db : DB) : DB :=
  match e with
  | .deleteByIDs t ids => db.deleteByIDs t ids
  | .insert t rows => db.insert t rows
  | .trimOldest t _ overflow => db.trimOldest t overflow
  | .pruneBefore t cutoff => db.pruneBefore t cutoff
  | _ => db

/-- A statement leaves a table alone, removes rows of it, or inserts rows into it. -/
theorem onDB_table (e : Op) (db : DB) (t : TableName) :
    (e.onDB db).table t = db.table t ∨ (∃ p, (e.onDB db).table t = (db.table t).remove p) ∨
      ∃ rows, e = .insert t rows ∧ (e.onDB db).table t = rows.foldl Table.insert (db.table t) := by
  have removes : ∀ (t' : TableName) (p : Table (Row t') → Row t' → Bool),
      (db.modify t' fun tbl => tbl.remove (p tbl)).table t = db.table t ∨
        ∃ q, (db.modify t' fun tbl => tbl.remove (p tbl)).table t = (db.table t).remove q := by
    intro t' p
    by_cases ht : t = t'
    · subst ht
      exact Or.inr ⟨p (db.table t), DB.table_modify_self ..⟩
    · exact Or.inl (DB.table_modify_of_ne _ _ ht)
  cases e with
  | deleteByIDs t' ids => exact (removes t' fun _ r => ids.contains (Keyed.key r)).imp id Or.inl
  | trimOldest t' limit overflow =>
      exact (removes t' fun tbl r => ((tbl.select unsynced overflow).map Keyed.key).contains (Keyed.key r)).imp id Or.inl
  | pruneBefore t' cutoff => exact (removes t' fun _ r => stamp r < cutoff).imp id Or.inl
  | insert t' rows =>
      by_cases ht : t = t'
      · subst ht
        exact Or.inr (Or.inr ⟨rows, rfl, DB.table_modify_self db t fun tbl => rows.foldl Table.insert tbl⟩)
      · exact Or.inl (DB.table_modify_of_ne db (fun tbl => rows.foldl Table.insert tbl) ht)
  | _ => exact Or.inl rfl

/-- Statements only remove rows, and add rows under new keys. -/
theorem evolves_onDB (e : Op) (db : DB) (t : TableName) : Table.Evolves (db.table t) ((e.onDB db).table t) := by
  rcases onDB_table e db t with h | ⟨p, h⟩ | ⟨rows, -, h⟩ <;> rw [h]
  · exact .refl _
  · exact Table.evolves_remove _ _
  · exact Table.evolves_foldl_insert rows _

theorem shrinks_onDB {e : Op} {t : TableName} (he : ∀ rows, e ≠ .insert t rows) (db : DB) :
    Table.Shrinks (db.table t) ((e.onDB db).table t) := by
  rcases onDB_table e db t with h | ⟨p, h⟩ | ⟨rows, hinsert, -⟩
  · rw [h]
    exact .refl _
  · rw [h]
    exact Table.shrinks_remove _ _
  · exact absurd hinsert (he rows)

section Exec
variable {ch : Choice} {e : Op} {w w' : World} {r : Reply e}

theorem exec_client (h : exec ch e w = some (r, w')) : w'.client = e.onClient ch.now w.client := by
  cases e <;> simp only [exec, World.statement, Option.some.injEq, Prod.mk.injEq, reduceCtorEq,
    Option.ite_none_left_eq_some] at h
  all_goals first
    | (obtain ⟨-, rfl⟩ := h; rfl)
    | (obtain ⟨-, -, rfl⟩ := h; rfl)
    | (obtain ⟨-, rfl⟩ := h; split_ifs <;> rfl)

theorem exec_db (h : exec ch e w = some (r, w')) : w'.db = if ch.error = none then e.onDB w.db else w.db := by
  cases e <;> simp only [exec, World.statement, Option.some.injEq, Prod.mk.injEq, reduceCtorEq,
    Option.ite_none_left_eq_some] at h
  all_goals first
    | (obtain ⟨-, rfl⟩ := h; exact (ite_self _).symm)
    | (obtain ⟨-, -, rfl⟩ := h; exact (ite_self _).symm)
    | (obtain ⟨-, rfl⟩ := h; split_ifs <;> rfl)

theorem exec_evolves (h : exec ch e w = some (r, w')) (t : TableName) :
    Table.Evolves (w.db.table t) (w'.db.table t) := by
  rw [exec_db h]
  split_ifs
  · exact evolves_onDB e w.db t
  · exact .refl _

theorem exec_shrinks (h : exec ch e w = some (r, w')) {t : TableName} (he : ∀ rows, e ≠ .insert t rows) :
    Table.Shrinks (w.db.table t) (w'.db.table t) := by
  rw [exec_db h]
  split_ifs
  · exact shrinks_onDB he w.db
  · exact .refl _

end Exec

end TimeChamp.Sync
