import TimeChamp.Lib.Database
import TimeChamp.Lib.Pool

/-!
# Repositories over tables

Requests on one database through a mapper of rows to objects. Each statement of a request may have those of others
before it.

* `TableOp`, `requests` : the effects of a request, and any number of requests;
* `find`, `findOne`, `insert`, `delete`, `clear` : one statement each;
* `Columns`, `save` : an object that was loaded is loaded once more when it is saved; what differs is written, and what
  is not there any more is inserted again.
-/

namespace TimeChamp.Lib

/-- A statement, something that is asked of the outside, and whose turn it is among the parts of a request. -/
inductive TableOp {K D : Type} (S : Schema K D) (L : Type) where
  | stmt (s : Stmt S)
  | ask (l : L)
  | turn

abbrev TableOp.Reply {K D : Type} {S : Schema K D} {L : Type} (A : L → Type) : TableOp S L → Type
  | .stmt s => s.Reply
  | .ask l => A l
  | .turn => Bool

/-- What the outside decides. -/
structure TableChoice (K L : Type) (A : L → Type) extends DbChoice K where
  turn : Bool
  reply : (l : L) → A l

/-- Why a request failed: the database, or what it raised itself. -/
inductive Failure (X : Type) where
  | database (e : DbError)
  | raised (x : X)
deriving DecidableEq

section
variable {K D : Type} {S : Schema K D} {L : Type} {A : L → Type}

section
variable [DecidableEq S.Table] [DecidableEq K]

def TableOp.exec (ch : TableChoice K L A) : (e : TableOp S L) → Db S → Option (e.Reply A × Db S)
  | .stmt s, db => s.run ch.toDbChoice db
  | .ask l, db => some (ch.reply l, db)
  | .turn, db => some (ch.turn, db)

/-- Any number of requests. -/
def requests {J : Type} (body : J → Prog (TableOp S L) (TableOp.Reply A) Unit) :
    System (TableOp S L) (TableOp.Reply A) (Db S) (TableChoice K L A) J where
  exec := TableOp.exec
  admits _ db := some db
  body

end

/-- A request that may fail. -/
abbrev Querying (S : Schema K D) (A : L → Type) (X : Type) := Throwing (Failure X) (TableOp S L) (TableOp.Reply A)

variable {X : Type}

/-- The answer of the database, or its error thrown. -/
def orThrow {α : Type} (answer : Except DbError α) : Querying S A X α :=
  match answer with
  | .ok a => pure a
  | .error e => throw (.database e)

def ask (l : L) : Querying S A X (A l) := ExceptT.lift (Prog.perform (E := TableOp S L) (.ask l))

/-- One statement. -/
def query (s : Stmt S) : Querying S A X s.Reply := ExceptT.lift (Prog.perform (E := TableOp S L) (.stmt s))

def find (t : S.Table) (w : S.Row t → Bool) : Querying S A X (List (S.Row t)) := query (.find t w) >>= orThrow

/-- The first row found, if there is one. -/
def findOne (t : S.Table) (w : S.Row t → Bool) : Querying S A X (Option (S.Row t)) := do
  let rows ← find t w
  return rows.head?

/-- A new object: its key and its times are filled in. -/
def insert (t : S.Table) (d : D) (row : K → Int → S.Row t) : Querying S A X (S.Row t) :=
  query (.insert t d row) >>= orThrow

def delete (t : S.Table) (k : K) : Querying S A X Unit := query (.delete t k) >>= orThrow

/-- Delete what a condition picks. -/
def clear (t : S.Table) (w : S.Row t → Bool) : Querying S A X Unit := query (.clear t w) >>= orThrow

/-- How an object is written over the row that is stored. -/
structure Columns (S : Schema K D) (t : S.Table) where
  /-- The columns of the two differ that may be written. -/
  differs : (stored saved : S.Row t) → Bool
  /-- The row after the columns that differ are written. -/
  write : (stored saved : S.Row t) → Int → S.Row t → S.Row t
  /-- The object after the columns that the database filled in are read back. -/
  readBack : (saved returned : S.Row t) → S.Row t

/-- Save an object that was loaded. -/
def save [DecidableEq K] {t : S.Table} (columns : Columns S t) (d : D) (saved : S.Row t) : Querying S A X (S.Row t) := do
  match ← findOne t fun r => S.key t r = S.key t saved with
  | none => query (.insertAs t d saved) >>= orThrow
  | some stored =>
    if columns.differs stored saved then
      let rows ← query (.modify t (S.key t saved) (columns.write stored saved)) >>= orThrow
      return (rows.head?.map (columns.readBack saved)).getD saved
    else return saved

end

end TimeChamp.Lib
