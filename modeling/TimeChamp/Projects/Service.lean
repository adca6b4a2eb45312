import TimeChamp.Accounts.Service
import TimeChamp.Lib.Parallel
import TimeChamp.Lib.Repository
import TimeChamp.Projects.Board

/-!
# Projects, tasks, milestones and comments

`projects.service.ts` and `projects.controller.ts`, over the tables of the migrations 005 and 014. A request is a program
of statements between which those of others may come. An id is the number that a UUID writes, an instant what a date's
text denotes; whether the users that a row names exist is left to how its statement ends.

* `Project`, `Task`, `Milestone`, `TaskComment`, `schema` : the rows and their constraints;
* `getProjects` to `addComment` : the methods of the service;
* `Call`, `requiredRoles`, `handle` : the routes; `projects`, any number of requests.
-/

namespace TimeChamp.Projects.Service
open Lib

abbrev Id := BitVec 128

/-! ## Tables -/

inductive ProjectStatus where
  | active
  | completed
  | onHold
  | archived
deriving DecidableEq

inductive Priority where
  | low
  | medium
  | high
  | urgent
deriving DecidableEq

/-- A column that may not be null is `none` only in an object that is not saved yet. -/
structure Project where
  id : Id
  organizationId : Id
  name : Option String
  description : Option String
  status : Option ProjectStatus
  deadline : Option Int
  color : Option String
  createdBy : Id
  createdAt : Int
  updatedAt : Int
deriving DecidableEq

/-- Hours as a request gives them, or as the text of a `DECIMAL(6, 2)` that is read, in hundredths. -/
inductive Hours where
  | number (hours : Rat)
  | text (hundredths : Int)
deriving DecidableEq

/-- The hundredths that are stored: half of one is rounded away from zero. -/
def Hours.hundredths : Hours → Int
  | .number hours => if hours < 0 then -(1 / 2 - 100 * hours).floor else (100 * hours + 1 / 2).floor
  | .text hundredths => hundredths

structure Task where
  id : Id
  projectId : Id
  organizationId : Id
  assigneeId : Option Id
  title : Option String
  description : Option String
  status : Option TaskStatus
  priority : Option Priority
  estimatedHours : Option Hours
  dueDate : Option Int
  position : Nat
  createdBy : Option Id
  createdAt : Int
  updatedAt : Int
deriving DecidableEq

/-- The object of a row that is read. -/
def Task.loaded (task : Task) : Task :=
  { task with estimatedHours := task.estimatedHours.map fun hours => .text hours.hundredths }

structure Milestone where
  id : Id
  projectId : Id
  organizationId : Id
  name : Option String
  dueDate : Option Int
  completedAt : Option Int
  createdAt : Int
  updatedAt : Int
deriving DecidableEq

structure TaskComment where
  id : Id
  taskId : Id
  userId : Id
  content : String
  createdAt : Int
  updatedAt : Int
deriving DecidableEq

inductive TableName where
  | projects
  | tasks
  | milestones
  | taskComments
deriving DecidableEq

abbrev Row : TableName → Type
  | .projects => Project
  | .tasks => Task
  | .milestones => Milestone
  | .taskComments => TaskComment

/-- A `VARCHAR(n) NOT NULL`. -/
def varchar (n : Nat) (column : Option String) : Bool := column.any fun text => text.length ≤ n

/-- A `DECIMAL(6, 2)`. -/
def decimal (column : Option Hours) : Bool := column.all fun hours => hours.hundredths.natAbs < 10 ^ 6

/-- The tables; what refers to a row goes with it. -/
abbrev schema : Schema Id Id where
  Table := TableName
  Row := Row
  key
    | .projects, p => Project.id p
    | .tasks, t => Task.id t
    | .milestones, m => Milestone.id m
    | .taskComments, c => TaskComment.id c
  owner
    | .projects, p => some (Project.organizationId p)
    | .tasks, t => some (Task.organizationId t)
    | .milestones, m => some (Milestone.organizationId m)
    | .taskComments, _ => none
  refs
    | .projects, _ => []
    | .tasks, t => [(.projects, Task.projectId t)]
    | .milestones, m => [(.projects, Milestone.projectId m)]
    | .taskComments, c => [(.tasks, TaskComment.taskId c)]
  fits
    | .projects, p => varchar 255 (Project.name p) && p.status.isSome && varchar 7 p.color
    | .tasks, t => varchar 255 (Task.title t) && t.status.isSome && t.priority.isSome && decimal t.estimatedHours &&
        decide (t.position < 2 ^ 31)
    | .milestones, m => varchar 255 (Milestone.name m)
    | .taskComments, _ => true
  clash _ _ _ := false
  onDelete
    | _, .projects, p => some p
    | q, .tasks, t => if q = (.projects, Task.projectId t) then none else some t
    | q, .milestones, m => if q = (.projects, Milestone.projectId m) then none else some m
    | q, .taskComments, c => if q = (.tasks, TaskComment.taskId c) then none else some c

instance : DecidableEq schema.Table := inferInstanceAs (DecidableEq TableName)

/-! ## Requests -/

inductive HttpException where
  | forbidden (message : String)
  | notFound (message : String)
deriving DecidableEq

/-- What a request is answered. -/
inductive Answer where
  | projects (rows : List Project)
  | project (row : Project)
  | details (project : Project) (tasks : List Task) (milestones : List Milestone)
  | tasks (rows : List Task)
  | task (row : Task)
  | milestones (rows : List Milestone)
  | milestone (row : Milestone)
  | comments (rows : List TaskComment)
  | comment (row : TaskComment)
  | noContent
  | failed (e : Failure HttpException)
deriving DecidableEq

/-- The clock of the server, and the answer that goes out. -/
inductive Ask where
  | now
  | respond (answer : Answer)

abbrev Ask.Reply : Ask → Type
  | .now => Int
  | .respond _ => Unit

abbrev Op := TableOp schema Ask

abbrev Op.Reply : Op → Type := TableOp.Reply Ask.Reply

abbrev Method := Querying schema Ask.Reply HttpException

def notFound {α : Type} (message : String) : Method α := throw (.raised (.notFound message))

/-- `Promise.all` of two parts. -/
def together {α β : Type} (p : Method α) (q : Method β) : Method (α × β) := Throwing.both (E := Op) .turn id p q

/-! ## What is saved -/

/-- One column: what is stored by now, unless the object that is saved differs from what was loaded for that. -/
def written {α : Type} [DecidableEq α] (stored saved now : α) : α := if saved = stored then now else saved

def projectColumns : Columns schema .projects where
  differs stored saved :=
    (stored : Project).name ≠ (saved : Project).name || stored.description ≠ saved.description ||
      stored.status ≠ saved.status || stored.deadline ≠ saved.deadline || stored.color ≠ saved.color
  write stored saved now r :=
    { (r : Project) with
      name := written (stored : Project).name (saved : Project).name r.name
      description := written stored.description saved.description r.description
      status := written stored.status saved.status r.status
      deadline := written stored.deadline saved.deadline r.deadline
      color := written stored.color saved.color r.color
      updatedAt := now }
  readBack saved returned := { (saved : Project) with updatedAt := (returned : Project).updatedAt }

def taskColumns : Columns schema .tasks where
  differs stored saved :=
    (stored : Task).assigneeId ≠ (saved : Task).assigneeId || stored.title ≠ saved.title ||
      stored.description ≠ saved.description || stored.status ≠ saved.status || stored.priority ≠ saved.priority ||
      stored.loaded.estimatedHours ≠ saved.estimatedHours || stored.dueDate ≠ saved.dueDate ||
      stored.position ≠ saved.position
  write stored saved now r :=
    { (r : Task) with
      assigneeId := written (stored : Task).assigneeId (saved : Task).assigneeId r.assigneeId
      title := written stored.title saved.title r.title
      description := written stored.description saved.description r.description
      status := written stored.status saved.status r.status
      priority := written stored.priority saved.priority r.priority
      estimatedHours := written stored.loaded.estimatedHours saved.estimatedHours r.estimatedHours
      dueDate := written stored.dueDate saved.dueDate r.dueDate
      position := written stored.position saved.position r.position
      updatedAt := now }
  readBack saved returned := { (saved : Task) with updatedAt := (returned : Task).updatedAt }

def milestoneColumns : Columns schema .milestones where
  differs stored saved :=
    (stored : Milestone).name ≠ (saved : Milestone).name || stored.dueDate ≠ saved.dueDate ||
      stored.completedAt ≠ saved.completedAt
  write stored saved now r :=
    { (r : Milestone) with
      name := written (stored : Milestone).name (saved : Milestone).name r.name
      dueDate := written stored.dueDate saved.dueDate r.dueDate
      completedAt := written stored.completedAt saved.completedAt r.completedAt
      updatedAt := now }
  readBack saved returned := { (saved : Milestone) with updatedAt := (returned : Milestone).updatedAt }

/-! ## The service -/

/-- A field of a change: left out, null, or a value. -/
abbrev Field (α : Type) := Option (Option α)

/-- `if (dto.field !== undefined) row.column = dto.field`. -/
def Field.assign {α : Type} (field : Field α) (column : Option α) : Option α := field.getD column

structure CreateProjectDto where
  name : String
  description : Option String
  deadline : Option Int
  color : Option String

structure UpdateProjectDto where
  name : Field String
  description : Field String
  status : Field ProjectStatus
  deadline : Field Int
  color : Field String

structure CreateTaskDto where
  title : String
  description : Option String
  priority : Option Priority
  assigneeId : Option Id
  estimatedHours : Option Rat
  dueDate : Option Int

structure UpdateTaskDto where
  title : Field String
  description : Field String
  status : Field TaskStatus
  priority : Field Priority
  assigneeId : Field Id
  estimatedHours : Field Rat
  dueDate : Field Int

structure MoveTaskDto where
  status : TaskStatus
  position : Nat

structure CreateMilestoneDto where
  name : String
  dueDate : Option Int

structure UpdateMilestoneDto where
  name : Field String
  dueDate : Field Int
  markComplete : Option Bool

/-- `ORDER BY due_date ASC`: what has none comes last. -/
def dueBefore : Option Int → Option Int → Bool
  | _, none => true
  | none, some _ => false
  | some a, some b => a ≤ b

def findProject (projectId organizationId : Id) : Method (Option Project) :=
  findOne (S := schema) .projects fun p : Project => p.id = projectId && p.organizationId = organizationId

def findProjectInOrg (projectId organizationId : Id) : Method Project := do
  match ← findProject projectId organizationId with
  | none => throw (.raised (.forbidden "Project not found in this organization"))
  | some project => return project

/-- The tasks of a project, in the order of their creation. -/
def findTasks (projectId organizationId : Id) : Method (List Task) := do
  let rows ← find (S := schema) .tasks fun t : Task => t.projectId = projectId && t.organizationId = organizationId
  return ((rows : List Task).map Task.loaded).mergeSort fun a b => a.createdAt ≤ b.createdAt

/-- The milestones of a project, by their dates. -/
def findMilestones (projectId organizationId : Id) : Method (List Milestone) := do
  let rows ← find (S := schema) .milestones fun m : Milestone =>
    m.projectId = projectId && m.organizationId = organizationId
  return (rows : List Milestone).mergeSort fun a b => dueBefore a.dueDate b.dueDate

/-- How every method starts that is about a task. -/
def findTask (projectId taskId organizationId : Id) : Method Task := do
  let _ ← findProjectInOrg projectId organizationId
  match ← findOne (S := schema) .tasks fun t : Task =>
      t.id = taskId && t.projectId = projectId && t.organizationId = organizationId with
  | none => notFound "Task not found"
  | some task => return Task.loaded task

def findMilestone (projectId milestoneId organizationId : Id) : Method Milestone := do
  let _ ← findProjectInOrg projectId organizationId
  match ← findOne (S := schema) .milestones fun m : Milestone =>
      m.id = milestoneId && m.projectId = projectId && m.organizationId = organizationId with
  | none => notFound "Milestone not found"
  | some milestone => return milestone

/-! ### Projects -/

def getProjects (organizationId : Id) : Method (List Project) := do
  let rows ← find (S := schema) .projects fun p : Project => p.organizationId = organizationId
  return (rows : List Project).mergeSort fun a b => b.createdAt ≤ a.createdAt

def createProject (organizationId userId : Id) (dto : CreateProjectDto) : Method Project :=
  insert (S := schema) .projects organizationId fun id now =>
    { id, organizationId, name := some dto.name, description := dto.description, status := some .active,
      deadline := dto.deadline, color := some (dto.color.getD "#3B82F6"), createdBy := userId,
      createdAt := now, updatedAt := now }

def getProjectWithDetails (projectId organizationId : Id) : Method (Project × List Task × List Milestone) := do
  match ← findProject projectId organizationId with
  | none => notFound "Project not found"
  | some project =>
    let (tasks, milestones) ← together (findTasks projectId organizationId) (findMilestones projectId organizationId)
    return (project, tasks, milestones)

def updateProject (projectId organizationId : Id) (dto : UpdateProjectDto) : Method Project := do
  match ← findProject projectId organizationId with
  | none => notFound "Project not found"
  | some project =>
    save projectColumns organizationId
      { project with
        name := dto.name.assign project.name
        description := dto.description.assign project.description
        status := dto.status.assign project.status
        deadline := dto.deadline.assign project.deadline
        color := dto.color.assign project.color }

def archiveProject (projectId organizationId : Id) : Method Unit := do
  match ← findProject projectId organizationId with
  | none => notFound "Project not found"
  | some project =>
    let _ ← save projectColumns organizationId { project with status := some .archived }

/-! ### Tasks -/

def getTasks (projectId organizationId : Id) : Method (List Task) := do
  let _ ← findProjectInOrg projectId organizationId
  findTasks projectId organizationId

def createTask (projectId organizationId : Id) (dto : CreateTaskDto) : Method Task := do
  let _ ← findProjectInOrg projectId organizationId
  insert (S := schema) .tasks organizationId fun id now =>
    { id, projectId, organizationId, assigneeId := dto.assigneeId, title := some dto.title,
      description := dto.description, status := some .todo, priority := some (dto.priority.getD .medium),
      estimatedHours := dto.estimatedHours.map .number, dueDate := dto.dueDate, position := 0, createdBy := none, createdAt := now, updatedAt := now }

def updateTask (projectId taskId organizationId : Id) (dto : UpdateTaskDto) : Method Task := do
  let task ← findTask projectId taskId organizationId
  save taskColumns organizationId
    { task with
      title := dto.title.assign task.title
      description := dto.description.assign task.description
      status := dto.status.assign task.status
      priority := dto.priority.assign task.priority
      assigneeId := dto.assigneeId.assign task.assigneeId
      estimatedHours := Field.assign (dto.estimatedHours.map (Option.map .number)) task.estimatedHours
      dueDate := dto.dueDate.assign task.dueDate }

def deleteTask (projectId taskId organizationId : Id) : Method Unit := do
  let _ ← findTask projectId taskId organizationId
  delete (S := schema) .tasks taskId

def moveTask (projectId taskId organizationId : Id) (dto : MoveTaskDto) : Method Task := do
  let task ← findTask projectId taskId organizationId
  save taskColumns organizationId { task with status := some dto.status, position := dto.position }

/-! ### Milestones -/

def getMilestones (projectId organizationId : Id) : Method (List Milestone) := do
  let _ ← findProjectInOrg projectId organizationId
  findMilestones projectId organizationId

def createMilestone (projectId organizationId : Id) (dto : CreateMilestoneDto) : Method Milestone := do
  let _ ← findProjectInOrg projectId organizationId
  insert (S := schema) .milestones organizationId fun id now =>
    { id, projectId, organizationId, name := some dto.name, dueDate := dto.dueDate, completedAt := none,
      createdAt := now, updatedAt := now }

/-- What `markComplete` makes of the time a milestone was completed at. -/
def markComplete (mark : Option Bool) (completedAt : Option Int) : Method (Option Int) :=
  match mark with
  | some true =>
    match completedAt with
    | none => do
      let now ← ask (S := schema) (A := Ask.Reply) Ask.now
      return some now
    | some t => return some t
  | some false => return none
  | none => return completedAt

def updateMilestone (projectId milestoneId organizationId : Id) (dto : UpdateMilestoneDto) : Method Milestone := do
  let milestone ← findMilestone projectId milestoneId organizationId
  let completedAt ← markComplete dto.markComplete milestone.completedAt
  save milestoneColumns organizationId
    { milestone with
      name := dto.name.assign milestone.name
      dueDate := dto.dueDate.assign milestone.dueDate
      completedAt }

def deleteMilestone (projectId milestoneId organizationId : Id) : Method Unit := do
  let _ ← findMilestone projectId milestoneId organizationId
  delete (S := schema) .milestones milestoneId

/-! ### Comments -/

def addComment (projectId taskId organizationId userId : Id) (content : String) : Method TaskComment := do
  let _ ← findTask projectId taskId organizationId
  insert (S := schema) .taskComments organizationId fun id now =>
    { id, taskId, userId, content, createdAt := now, updatedAt := now }

def getComments (projectId taskId organizationId : Id) : Method (List TaskComment) := do
  let _ ← findTask projectId taskId organizationId
  let rows ← find (S := schema) .taskComments fun c : TaskComment => c.taskId = taskId
  return (rows : List TaskComment).mergeSort fun a b => a.createdAt ≤ b.createdAt

/-! ## The routes -/

inductive Call where
  | getProjects
  | createProject (dto : CreateProjectDto)
  | getProject (id : Id)
  | updateProject (id : Id) (dto : UpdateProjectDto)
  | archiveProject (id : Id)
  | getTasks (projectId : Id)
  | createTask (projectId : Id) (dto : CreateTaskDto)
  | updateTask (projectId id : Id) (dto : UpdateTaskDto)
  | deleteTask (projectId id : Id)
  | moveTask (projectId taskId : Id) (dto : MoveTaskDto)
  | getComments (projectId taskId : Id)
  | addComment (projectId taskId : Id) (content : String)
  | getMilestones (projectId : Id)
  | createMilestone (projectId : Id) (dto : CreateMilestoneDto)
  | updateMilestone (projectId id : Id) (dto : UpdateMilestoneDto)
  | deleteMilestone (projectId id : Id)

/-- Who makes a request. -/
structure User where
  id : Id
  organizationId : Id
  role : Accounts.UserRole
deriving DecidableEq

structure Request where
  user : User
  call : Call

def roleText : Accounts.UserRole → String
  | .admin => "admin"
  | .manager => "manager"
  | .employee => "employee"

/-- `@Roles(...)`; none where everyone may call. -/
def requiredRoles : Call → List Accounts.UserRole
  | .createProject _ => [.admin, .manager]
  | .updateProject _ _ => [.admin, .manager]
  | .archiveProject _ => [.admin]
  | .createMilestone _ _ => [.admin, .manager]
  | .updateMilestone _ _ _ => [.admin, .manager]
  | .deleteMilestone _ _ => [.admin, .manager]
  | _ => []

/-- `RolesGuard`. -/
def canActivate {S : Schema Id Id} {L : Type} {A : L → Type} (requiredRoles : List Accounts.UserRole) (user : User) :
    Querying S A HttpException Unit :=
  if requiredRoles.isEmpty then pure ()
  else if requiredRoles.contains user.role then pure ()
  else throw (.raised (.forbidden ("Requires one of: " ++ String.intercalate ", " (requiredRoles.map roleText))))

def handle (user : User) : Call → Method Answer
  | .getProjects => .projects <$> getProjects user.organizationId
  | .createProject dto => .project <$> createProject user.organizationId user.id dto
  | .getProject id => (fun d => .details d.1 d.2.1 d.2.2) <$> getProjectWithDetails id user.organizationId
  | .updateProject id dto => .project <$> updateProject id user.organizationId dto
  | .archiveProject id => (fun _ => .noContent) <$> archiveProject id user.organizationId
  | .getTasks projectId => .tasks <$> getTasks projectId user.organizationId
  | .createTask projectId dto => .task <$> createTask projectId user.organizationId dto
  | .updateTask projectId id dto => .task <$> updateTask projectId id user.organizationId dto
  | .deleteTask projectId id => (fun _ => .noContent) <$> deleteTask projectId id user.organizationId
  | .moveTask projectId taskId dto => .task <$> moveTask projectId taskId user.organizationId dto
  | .getComments projectId taskId => .comments <$> getComments projectId taskId user.organizationId
  | .addComment projectId taskId content =>
    .comment <$> addComment projectId taskId user.organizationId user.id content
  | .getMilestones projectId => .milestones <$> getMilestones projectId user.organizationId
  | .createMilestone projectId dto => .milestone <$> createMilestone projectId user.organizationId dto
  | .updateMilestone projectId id dto => .milestone <$> updateMilestone projectId id user.organizationId dto
  | .deleteMilestone projectId id => (fun _ => .noContent) <$> deleteMilestone projectId id user.organizationId

/-- A request, with the answer that goes out. -/
def Request.body (request : Request) : Prog Op Op.Reply Unit := do
  let result ← (canActivate (requiredRoles request.call) request.user >>= fun _ => handle request.user request.call).run
  match result with
  | .ok answer => Prog.perform (E := Op) (.ask (.respond answer))
  | .error e => Prog.perform (E := Op) (.ask (.respond (.failed e)))

abbrev Choice := TableChoice Id Ask Ask.Reply

/-- Any number of requests. -/
def projects : System Op Op.Reply (Db schema) Choice Request := requests Request.body

abbrev Serving (ι : Type) := Config ι Op Op.Reply (Db schema)

end TimeChamp.Projects.Service
