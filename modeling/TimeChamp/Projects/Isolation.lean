import TimeChamp.Lib.Ownership
import TimeChamp.Projects.Service

/-!
# The projects of an organization are its own

Every method looks for a row by the organization before it uses its id.

* `schema_lawful`, `shallow` : no constraint ties the rows of two organizations together;
* `guarantees_handle` : **every route keeps to the rows of the organization of its user**;
* `organizations_isolated` : what the requests of an organization are answered is what they are answered alone;
* `references_hold` : what a row refers to is there, and of the same organization.
-/

namespace TimeChamp.Projects.Service
open Lib

/-! ## The schema -/

theorem schema_lawful : schema.Lawful where
  clash h := by cases h
  onDelete_keeps {q t r r'} h := by
    cases t with
    | projects =>
        obtain rfl := Option.some.inj h
        exact ⟨rfl, rfl, List.Subset.refl _, List.not_mem_nil⟩
    | tasks | milestones | taskComments =>
        simp only [schema] at h
        split at h
        next => cases h
        next hq =>
          obtain rfl := Option.some.inj h
          exact ⟨rfl, rfl, List.Subset.refl _, fun hmem => hq (List.mem_singleton.mp hmem)⟩
  onDelete_other {q t r} h := by
    cases t with
    | projects => rfl
    | tasks | milestones | taskComments => exact if_neg fun hq => h (List.mem_singleton.mpr hq)

/-- What goes with a task is not referred to. -/
theorem shallow_tasks : schema.Shallow .tasks := by
  intro k t' r h k' t'' r' hmem
  cases t' with
  | projects => cases h
  | tasks | milestones =>
      simp only [schema] at h
      split at h
      next hq => cases hq
      next => cases h
  | taskComments => cases t'' <;> simp [schema] at hmem

theorem shallow_milestones : schema.Shallow .milestones := by
  intro k t' r h
  cases t' with
  | projects => cases h
  | tasks | milestones | taskComments =>
      simp only [schema] at h
      split at h
      next hq => cases hq
      next => cases h

/-! ## The methods -/

abbrev Knows := Known schema

/-- The method keeps to the rows of its organization, and has seen the row that it returns. -/
abbrev Yields (m : Knows) (t : TableName) (good : schema.Row t → Prop) (x : Method (schema.Row t)) : Prop :=
  Guarantees owning (fun m' r => m ≤ m' ∧ good r ∧ m'.Holds t r) m x

/-- The method keeps to the rows of its organization. -/
abbrev Stays {α : Type} (m : Knows) (x : Method α) : Prop := Guarantees owning (fun _ _ => True) m x

variable {m : Knows} {organizationId projectId taskId milestoneId userId : Id}

theorem upward_true {α : Type} : Upward fun (_ : Knows) (_ : α) => True := fun _ _ _ _ _ => trivial

theorem Stays.map {α β : Type} {x : Method α} (h : Stays m x) (f : α → β) : Stays m (f <$> x) := by
  show Stays m (x >>= fun a => pure (f a))
  exact Guarantees.bind h fun _ _ _ => guarantees_pure trivial

/-- A list of rows that is asked for by the organization, in some order. -/
theorem stays_sorted {t : TableName} {w : schema.Row t → Bool} {α : Type} {f : List (schema.Row t) → α}
    (hw : ∀ r, w r = true → schema.owner t r = some m.owner ∨ ∃ q ∈ schema.refs t r, q ∈ m.keys) :
    Stays m (do let rows ← find (S := schema) (A := Ask.Reply) (X := HttpException) t w; return f rows) := by
  refine Guarantees.bind (Q := fun _ _ => True) (guarantees_find ?_ fun _ _ => trivial) fun _ _ _ => guarantees_pure trivial
  intro r hr
  rcases hw r hr with ho | hq
  · exact Or.inl ho
  · exact Or.inr (Or.inr hq)

theorem guarantees_findProject :
    Guarantees owning (fun m' p => m ≤ m' ∧ ∀ p' ∈ p, p'.id = projectId ∧ m'.Holds .projects p') m
      (findProject projectId m.owner) := by
  refine Guarantees.mono (guarantees_findOne_owned ?_) ?_
  · intro p hp
    simp only [Bool.and_eq_true, decide_eq_true_eq] at hp
    exact congrArg some hp.2
  · rintro m' p ⟨hm, hp⟩
    refine ⟨hm, fun p' hp' => ⟨?_, (hp p' hp').2⟩⟩
    have hw := (hp p' hp').1
    simp only [Bool.and_eq_true, decide_eq_true_eq] at hw
    exact hw.1

/-- What becomes of a project that was looked for. -/
theorem stays_findProject {α : Type} {f : Option Project → Method α} (hnone : ∀ m', m ≤ m' → Stays m' (f none))
    (hsome : ∀ m' project, m ≤ m' → m'.Holds .projects project → Stays m' (f (some project))) :
    Stays m (findProject projectId m.owner >>= f) := by
  refine Guarantees.bind guarantees_findProject ?_
  rintro m' p ⟨hm, hp⟩
  cases p with
  | none => exact hnone m' hm
  | some project => exact hsome m' project hm (hp project rfl).2

theorem yields_findProjectInOrg :
    Yields m .projects (fun p => Project.id p = projectId) (findProjectInOrg projectId m.owner) := by
  refine Guarantees.bind guarantees_findProject ?_
  rintro m' p ⟨hm, hp⟩
  cases p with
  | none => exact guarantees_throw _
  | some project => exact guarantees_pure ⟨hm, hp project rfl⟩

theorem yields_findTask : Yields m .tasks (fun t => Task.id t = taskId) (findTask projectId taskId m.owner) := by
  refine Guarantees.bind yields_findProjectInOrg ?_
  rintro m₁ _ ⟨hm₁, -, -⟩
  rw [hm₁.1]
  refine Guarantees.bind (guarantees_findOne_owned ?_) ?_
  · intro t ht
    simp only [Bool.and_eq_true, decide_eq_true_eq] at ht
    exact congrArg some ht.2
  · rintro m₂ t ⟨hm₂, ht⟩
    cases t with
    | none => exact guarantees_throw _
    | some task =>
        obtain ⟨hw, hholds⟩ := ht task rfl
        simp only [Bool.and_eq_true, decide_eq_true_eq] at hw
        exact guarantees_pure ⟨hm₁.trans hm₂, hw.1.1, ⟨hholds.owner, hholds.refs⟩, hholds.key⟩

theorem yields_findMilestone :
    Yields m .milestones (fun r => Milestone.id r = milestoneId) (findMilestone projectId milestoneId m.owner) := by
  refine Guarantees.bind yields_findProjectInOrg ?_
  rintro m₁ _ ⟨hm₁, -, -⟩
  rw [hm₁.1]
  refine Guarantees.bind (guarantees_findOne_owned ?_) ?_
  · intro t ht
    simp only [Bool.and_eq_true, decide_eq_true_eq] at ht
    exact congrArg some ht.2
  · rintro m₂ t ⟨hm₂, ht⟩
    cases t with
    | none => exact guarantees_throw _
    | some milestone =>
        obtain ⟨hw, hholds⟩ := ht milestone rfl
        simp only [Bool.and_eq_true, decide_eq_true_eq] at hw
        exact guarantees_pure ⟨hm₁.trans hm₂, hw.1.1, hholds⟩

theorem stays_findTasks : Stays m (findTasks projectId m.owner) := by
  apply stays_sorted
  intro t ht
  simp only [Bool.and_eq_true, decide_eq_true_eq] at ht
  exact Or.inl (congrArg some ht.2)

theorem stays_findMilestones : Stays m (findMilestones projectId m.owner) := by
  apply stays_sorted
  intro t ht
  simp only [Bool.and_eq_true, decide_eq_true_eq] at ht
  exact Or.inl (congrArg some ht.2)

/-! ### What is saved -/

theorem keeps_project (stored saved : Project) : Keeps (S := schema) .projects (projectColumns.write stored saved) :=
  fun _ _ => ⟨rfl, rfl, rfl⟩

theorem keeps_task (stored saved : Task) : Keeps (S := schema) .tasks (taskColumns.write stored saved) :=
  fun _ _ => ⟨rfl, rfl, rfl⟩

theorem keeps_milestone (stored saved : Milestone) :
    Keeps (S := schema) .milestones (milestoneColumns.write stored saved) :=
  fun _ _ => ⟨rfl, rfl, rfl⟩

theorem stays_saveProject {project saved : Project} (h : m.Holds .projects project) (hid : saved.id = project.id)
    (horg : saved.organizationId = project.organizationId) : Stays m (save projectColumns m.owner saved) := by
  apply guarantees_save (fun stored => keeps_project stored saved)
  refine ⟨⟨fun d hd => ?_, h.refs⟩, ?_⟩
  · apply h.owner d
    show some project.organizationId = some d
    rw [← horg]
    exact hd
  · show ((TableName.projects, saved.id) : schema.Table × Id) ∈ m.keys
    rw [hid]
    exact h.key

/-- A task that was loaded, with columns changed that do not say whose it is. -/
theorem stays_saveTask {task saved : Task} (h : m.Holds .tasks task) (hid : saved.id = task.id)
    (horg : saved.organizationId = task.organizationId) (hproject : saved.projectId = task.projectId) :
    Stays m (save taskColumns m.owner saved) := by
  apply guarantees_save (fun stored => keeps_task stored saved)
  refine ⟨⟨fun d hd => ?_, ?_⟩, ?_⟩
  · apply h.owner d
    show some task.organizationId = some d
    rw [← horg]
    exact hd
  · show [((TableName.projects, saved.projectId) : schema.Table × Id)] ⊆ m.keys
    rw [hproject]
    exact h.refs
  · show ((TableName.tasks, saved.id) : schema.Table × Id) ∈ m.keys
    rw [hid]
    exact h.key

theorem stays_saveMilestone {milestone saved : Milestone} (h : m.Holds .milestones milestone)
    (hid : saved.id = milestone.id) (horg : saved.organizationId = milestone.organizationId)
    (hproject : saved.projectId = milestone.projectId) : Stays m (save milestoneColumns m.owner saved) := by
  apply guarantees_save (fun stored => keeps_milestone stored saved)
  refine ⟨⟨fun d hd => ?_, ?_⟩, ?_⟩
  · apply h.owner d
    show some milestone.organizationId = some d
    rw [← horg]
    exact hd
  · show [((TableName.projects, saved.projectId) : schema.Table × Id)] ⊆ m.keys
    rw [hproject]
    exact h.refs
  · show ((TableName.milestones, saved.id) : schema.Table × Id) ∈ m.keys
    rw [hid]
    exact h.key

/-! ### Projects -/

theorem stays_getProjects : Stays m (getProjects m.owner) := by
  apply stays_sorted
  intro p hp
  exact Or.inl (congrArg some (of_decide_eq_true hp))

theorem stays_createProject (dto : CreateProjectDto) : Stays m (createProject m.owner userId dto) := by
  refine guarantees_insert ⟨rfl, fun k now => ⟨rfl, ?_, ?_⟩⟩ fun _ _ => trivial
  · intro d hd
    exact (Option.some.inj hd).symm
  · exact List.nil_subset _

theorem stays_getProjectWithDetails : Stays m (getProjectWithDetails projectId m.owner) := by
  apply stays_findProject
  · exact fun m' _ => guarantees_throw _
  · intro m' project hm _
    rw [hm.1]
    refine Guarantees.bind (Q := fun _ _ => True) ?_ fun _ _ _ => guarantees_pure trivial
    have htasks : Stays m' (findTasks projectId m'.owner) := stays_findTasks
    have hmilestones : Stays m' (findMilestones projectId m'.owner) := stays_findMilestones
    have hturn : ∀ m : Knows, (owning (A := Ask.Reply)).pre m .turn := fun _ => trivial
    exact (Guarantees.both owning_monotone hturn upward_true upward_true htasks hmilestones).mono fun _ _ _ => trivial

theorem stays_updateProject (dto : UpdateProjectDto) : Stays m (updateProject projectId m.owner dto) := by
  apply stays_findProject
  · exact fun m' _ => guarantees_throw _
  · intro m' project hm hproject
    rw [hm.1]
    exact stays_saveProject hproject rfl rfl

theorem stays_archiveProject : Stays m (archiveProject projectId m.owner) := by
  apply stays_findProject
  · exact fun m' _ => guarantees_throw _
  · intro m' project hm hproject
    rw [hm.1]
    have hsave : Stays m' (save projectColumns m'.owner { project with status := some .archived }) :=
      stays_saveProject hproject rfl rfl
    exact Guarantees.bind hsave fun _ _ _ => guarantees_pure trivial

/-! ### Tasks and milestones -/

theorem stays_getTasks : Stays m (getTasks projectId m.owner) := by
  refine Guarantees.bind yields_findProjectInOrg ?_
  rintro m' _ ⟨hm, -, -⟩
  rw [hm.1]
  exact stays_findTasks

theorem stays_createTask (dto : CreateTaskDto) : Stays m (createTask projectId m.owner dto) := by
  refine Guarantees.bind yields_findProjectInOrg ?_
  rintro m' project ⟨hm, rfl, hproject⟩
  rw [hm.1]
  refine guarantees_insert ⟨rfl, fun k now => ⟨rfl, ?_, ?_⟩⟩ fun _ _ => trivial
  · intro d hd
    exact (Option.some.inj hd).symm
  · exact List.cons_subset.mpr ⟨hproject.key, List.nil_subset _⟩

theorem stays_updateTask (dto : UpdateTaskDto) : Stays m (updateTask projectId taskId m.owner dto) := by
  refine Guarantees.bind yields_findTask ?_
  rintro m' task ⟨hm, -, htask⟩
  rw [hm.1]
  exact stays_saveTask htask rfl rfl rfl

theorem stays_deleteTask : Stays m (deleteTask projectId taskId m.owner) := by
  refine Guarantees.bind yields_findTask ?_
  rintro m' task ⟨hm, rfl, htask⟩
  exact guarantees_delete htask.key shallow_tasks

theorem stays_moveTask (dto : MoveTaskDto) : Stays m (moveTask projectId taskId m.owner dto) := by
  refine Guarantees.bind yields_findTask ?_
  rintro m' task ⟨hm, -, htask⟩
  rw [hm.1]
  exact stays_saveTask htask rfl rfl rfl

theorem stays_getMilestones : Stays m (getMilestones projectId m.owner) := by
  refine Guarantees.bind yields_findProjectInOrg ?_
  rintro m' _ ⟨hm, -, -⟩
  rw [hm.1]
  exact stays_findMilestones

theorem stays_createMilestone (dto : CreateMilestoneDto) : Stays m (createMilestone projectId m.owner dto) := by
  refine Guarantees.bind yields_findProjectInOrg ?_
  rintro m' project ⟨hm, rfl, hproject⟩
  rw [hm.1]
  refine guarantees_insert ⟨rfl, fun k now => ⟨rfl, ?_, ?_⟩⟩ fun _ _ => trivial
  · intro d hd
    exact (Option.some.inj hd).symm
  · exact List.cons_subset.mpr ⟨hproject.key, List.nil_subset _⟩

theorem guarantees_markComplete (mark : Option Bool) (completedAt : Option Int) :
    Guarantees owning (fun m' _ => m ≤ m') m (markComplete mark completedAt) := by
  unfold markComplete
  split
  · split
    · exact Guarantees.bind (guarantees_ask (Q := fun m' _ => m ≤ m') fun _ => le_rfl) fun _ _ hm => guarantees_pure hm
    · exact guarantees_pure le_rfl
  · exact guarantees_pure le_rfl
  · exact guarantees_pure le_rfl

theorem stays_updateMilestone (dto : UpdateMilestoneDto) :
    Stays m (updateMilestone projectId milestoneId m.owner dto) := by
  refine Guarantees.bind yields_findMilestone ?_
  rintro m₁ milestone ⟨hm₁, -, hmilestone⟩
  refine Guarantees.bind (guarantees_markComplete _ _) ?_
  intro m₂ completedAt hm₂
  rw [(hm₁.trans hm₂).1]
  exact stays_saveMilestone (hmilestone.mono hm₂) rfl rfl rfl

theorem stays_deleteMilestone : Stays m (deleteMilestone projectId milestoneId m.owner) := by
  refine Guarantees.bind yields_findMilestone ?_
  rintro m' milestone ⟨hm, rfl, hmilestone⟩
  exact guarantees_delete hmilestone.key shallow_milestones

/-! ### Comments -/

/-- A comment has no column for the organization; it is told by its task. -/
theorem stays_addComment (content : String) : Stays m (addComment projectId taskId m.owner userId content) := by
  refine Guarantees.bind yields_findTask ?_
  rintro m' task ⟨hm, rfl, htask⟩
  rw [hm.1]
  refine guarantees_insert ⟨rfl, fun k now => ⟨rfl, ?_, ?_⟩⟩ fun _ _ => trivial
  · exact fun d hd => absurd hd (Option.not_mem_none d)
  · exact List.cons_subset.mpr ⟨htask.key, List.nil_subset _⟩

theorem stays_getComments : Stays m (getComments projectId taskId m.owner) := by
  refine Guarantees.bind yields_findTask ?_
  rintro m' task ⟨-, rfl, htask⟩
  apply stays_sorted
  intro c hc
  refine Or.inr ⟨_, List.mem_singleton.mpr rfl, ?_⟩
  have htaskId : TaskComment.taskId c = Task.id task := of_decide_eq_true hc
  rw [htaskId]
  exact htask.key

/-! ## The routes -/

theorem stays_handle (user : User) (howner : m.owner = user.organizationId) (call : Call) : Stays m (handle user call) := by
  unfold handle
  rw [← howner]
  cases call with
  | getProjects => exact stays_getProjects.map _
  | createProject dto => exact (stays_createProject dto).map _
  | getProject id => exact stays_getProjectWithDetails.map _
  | updateProject id dto => exact (stays_updateProject dto).map _
  | archiveProject id => exact stays_archiveProject.map _
  | getTasks projectId => exact stays_getTasks.map _
  | createTask projectId dto => exact (stays_createTask dto).map _
  | updateTask projectId id dto => exact (stays_updateTask dto).map _
  | deleteTask projectId id => exact stays_deleteTask.map _
  | moveTask projectId taskId dto => exact (stays_moveTask dto).map _
  | getComments projectId taskId => exact stays_getComments.map _
  | addComment projectId taskId content => exact (stays_addComment content).map _
  | getMilestones projectId => exact stays_getMilestones.map _
  | createMilestone projectId dto => exact (stays_createMilestone dto).map _
  | updateMilestone projectId id dto => exact (stays_updateMilestone dto).map _
  | deleteMilestone projectId id => exact stays_deleteMilestone.map _

/-- **A request keeps to the rows of the organization of its user.** -/
theorem follows_body (request : Request) :
    Follows owning (fun _ _ => True) ⟨request.user.organizationId, []⟩ request.body := by
  have hhandle : Guarantees owning (fun _ _ => True) ⟨request.user.organizationId, []⟩
      (canActivate (requiredRoles request.call) request.user >>= fun _ => handle request.user request.call) := by
    refine Guarantees.bind (Q := fun m' _ => m'.owner = request.user.organizationId) ?_ fun m' _ hm =>
      stays_handle request.user hm request.call
    unfold canActivate
    split
    · exact guarantees_pure rfl
    · split
      · exact guarantees_pure rfl
      · exact guarantees_throw _
  refine Follows.bind (Q := fun _ _ => True) (Follows.mono hhandle fun _ _ _ => trivial) ?_
  intro m' result _
  cases result <;> exact ⟨trivial, fun _ _ _ => trivial⟩

/-! ## Any number of requests -/

section
variable {ι : Type} [DecidableEq ι] {dom : ι → Id}

/-- A thread serves one organization. -/
abbrev ServesOrg (dom : ι → Id) : Act ι Choice Request → Prop := Serves dom fun r : Request => r.user.organizationId

/-- **Organizations do not notice each other.** From any sound state, in every order of the statements of any number of
requests, those of one organization are answered as when there are no others, and leave the same rows. -/
theorem organizations_isolated {db : Db schema} (hdb : db.Sound) {as : List (Act ι Choice Request)}
    (has : ∀ a ∈ as, ServesOrg dom a) {c : Serving ι} (hplay : projects.play (Config.start db) as = some c)
    (organizationId : Id) :
    ∃ c', projects.play (Config.start db) (ofDomain dom organizationId as) = some c' ∧
      c'.trace = (c.trace.filter fun p => dom p.1 = organizationId) ∧
      ∀ t, c.world.of organizationId t = c'.world.of organizationId t := by
  obtain ⟨c', hc', hsees⟩ := isolated schema_lawful follows_body hdb has hplay organizationId
  exact ⟨c', hc', hsees.trace, fun t => congrFun hsees.world.of t⟩

/-- A manager of an organization. -/
def manager (organizationId : Id) : User := ⟨organizationId + 100, organizationId, .manager⟩

/-- A statement that succeeds; `fresh` is the id that it may generate. -/
def statement (fresh : Id) : Choice where
  outcome := .ok
  now := 0
  fresh := fresh
  turn := true
  reply
    | .now => 0
    | .respond _ => ()

/-- Organization 1 creates a project and a task in it, and meanwhile organization 2 asks for that project. -/
def twoOrganizations : List (Act (Fin 3) Choice Request) :=
  [.call 0 ⟨manager 1, .createProject ⟨"Website Redesign", none, none, none⟩⟩, .step 0 (statement 7),
    .step 0 (statement 0),
    .call 1 ⟨manager 1, .createTask 7 ⟨"Design homepage mockup", none, none, none, some (9 / 2), none⟩⟩,
    .call 2 ⟨manager 2, .getTasks 7⟩, .step 1 (statement 0), .step 2 (statement 0), .step 1 (statement 8),
    .step 2 (statement 0), .step 1 (statement 0)]

def domains (i : Fin 3) : Id := if i = 2 then 2 else 1

theorem organizations_isolated_two :
    ∃ c', projects.play (Config.start Db.start) (ofDomain domains 1 twoOrganizations) = some c' ∧
      c'.trace = ((projects.endOf (Config.start Db.start) twoOrganizations).trace.filter fun p => domains p.1 = 1) ∧
      ∀ t, (projects.endOf (Config.start Db.start) twoOrganizations).world.of 1 t = c'.world.of 1 t :=
  organizations_isolated Db.start_sound (by decide) (System.play_endOf (by decide +kernel)) 1

/-- **What a row refers to is there.** In every state that requests lead to, the project of a task or a milestone exists
and is of the organization that the row names, and the task of a comment exists; no id is used twice. -/
theorem references_hold {c : Serving ι} (h : Reaches projects (fun _ a => ServesOrg dom a) (Config.start Db.start) c) :
    (∀ task ∈ (c.world.rows .tasks : List Task), ∃ project ∈ (c.world.rows .projects : List Project),
      project.id = task.projectId ∧ project.organizationId = task.organizationId) ∧
    (∀ milestone ∈ (c.world.rows .milestones : List Milestone), ∃ project ∈ (c.world.rows .projects : List Project),
      project.id = milestone.projectId ∧ project.organizationId = milestone.organizationId) ∧
    (∀ comment ∈ (c.world.rows .taskComments : List TaskComment), ∃ task ∈ (c.world.rows .tasks : List Task),
      task.id = comment.taskId) ∧
    ∀ t, ((c.world.rows t).map (schema.key t)).Nodup := by
  have hsound := reaches_sound schema_lawful follows_body Db.start_sound h
  have hproject : ∀ {t} {r : schema.Row t} {projectId organizationId : Id}, r ∈ c.world.rows t →
      schema.owner t r = some organizationId → (TableName.projects, projectId) ∈ schema.refs t r →
      ∃ project ∈ (c.world.rows .projects : List Project), project.id = projectId ∧
        project.organizationId = organizationId := by
    intro t r projectId organizationId hr howner href
    obtain ⟨d, -, hmine⟩ := hsound.mine hr
    obtain ⟨project, hmem, hkey⟩ := has_iff.mp (hsound.refs hr _ href)
    obtain ⟨d', hd', hmine'⟩ := hsound.mine hmem
    refine ⟨project, hmem, hkey, ?_⟩
    have hborn : ((.projects, projectId, d) : schema.Table × Id × Id) ∈ c.world.born := hmine.refs _ href
    have hborn' : ((.projects, projectId, d') : schema.Table × Id × Id) ∈ c.world.born := by
      have hid : schema.key .projects project = projectId := hkey
      rwa [hid] at hd'
    calc Project.organizationId project = d' := hmine'.owner _ rfl
      _ = d := hsound.born hborn' hborn
      _ = organizationId := (hmine.owner _ howner).symm
  refine ⟨fun task hr => ?_, fun milestone hr => ?_, fun comment hr => ?_, hsound.keys⟩
  · exact hproject hr rfl (List.mem_singleton.mpr rfl)
  · exact hproject hr rfl (List.mem_singleton.mpr rfl)
  · exact has_iff.mp (hsound.refs hr _ (List.mem_singleton.mpr rfl))

theorem references_hold_two : ∃ project ∈
    ((projects.endOf (Config.start Db.start) twoOrganizations).world.rows .projects : List Project),
      project.id = 7 ∧ project.organizationId = 1 := by
  have h : Reaches projects (fun _ a => ServesOrg domains a) (Config.start Db.start)
      (projects.endOf (Config.start Db.start) twoOrganizations) :=
    reaches_endOf (by decide +kernel) (by decide +kernel)
  exact (references_hold h).1
    ⟨8, 7, 1, none, some "Design homepage mockup", none, some .todo, some .medium, some (.number (9 / 2)), none, 0, none,
      0, 0⟩ (by decide +kernel)

end

end TimeChamp.Projects.Service
