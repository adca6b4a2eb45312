import TimeChamp.Lib.Runs
import TimeChamp.Lib.StableSort

/-!
# The kanban board

`kanban-board.tsx` and the tasks of `projects.service.ts`. Of a task only its column and its position are kept, and the
order in which it was created.

* `tasksByColumn`, `dropTarget`, `handleDragEnd` : what a column shows, where a task is dropped, and what is asked of
  the server then; `moveTask` : what that stores;
* `BoardEvent`, `step` : a task is created, or one is dragged;
* `Shows` : the column shows the task at the index, and the others what they showed;
* `InPlace` : as many tasks of the column as the index come before the task at that position;
* `shows_iff` : **after a drag the board shows it exactly when the task is in place**.
-/

namespace TimeChamp.Projects
open TimeChamp.Lib

inductive TaskStatus where
  | todo
  | inProgress
  | inReview
  | done
deriving DecidableEq

/-- A task; the ids are in the order of creation. -/
structure Task where
  id : Nat
  status : TaskStatus
  position : Nat
deriving DecidableEq

/-- The tasks of a project, in the order of creation, and the id of the next. -/
structure Board where
  tasks : List Task
  nextId : Nat
deriving DecidableEq

def Board.empty : Board := ⟨[], 0⟩

/-! ## The browser -/

def NotBehind (a b : Task) : Prop := a.position ≤ b.position

instance : DecidableRel NotBehind := fun a b => inferInstanceAs (Decidable (a.position ≤ b.position))

instance : IsTrans Task NotBehind := ⟨fun _ _ _ => Nat.le_trans⟩

instance : Std.Total NotBehind := ⟨fun a b => Nat.le_total a.position b.position⟩

/-- What a column shows: its tasks by position, those of one position as the server returns them. -/
def tasksByColumn (tasks : List Task) (column : TaskStatus) : List Task :=
  (tasks.filter fun t => t.status = column).insertionSort NotBehind

/-- What a task is dragged over: a column, or a task. -/
inductive Over where
  | column (status : TaskStatus)
  | task (id : Nat)
deriving DecidableEq

/-- The task that is dragged and what it is dropped on. -/
structure DragEndEvent where
  active : Nat
  over_ : Option Over
deriving DecidableEq

/-- The task that was dropped on. -/
def overTask (tasks : List Task) : Over → Option Task
  | .column _ => none
  | .task id => tasks.find? fun t => t.id = id

/-- The column and the index at which the task is dropped. -/
def dropTarget (tasks : List Task) (dragged : Task) (over_ : Over) : TaskStatus × Nat :=
  let targetStatus :=
    match over_, overTask tasks over_ with
    | .column status, _ => status
    | .task _, some t => t.status
    | .task _, none => dragged.status
  let colTasks := (tasksByColumn tasks targetStatus).filter fun t => t.id ≠ dragged.id
  let targetIdx :=
    match overTask tasks over_ with
    | none => colTasks.length
    | some t =>
      if t.status = targetStatus then (colTasks.findIdx? fun u => u.id = t.id).getD colTasks.length
      else colTasks.length
  (targetStatus, targetIdx)

/-- What is asked of the server: the task, its column and its position. -/
def handleDragEnd (tasks : List Task) (e : DragEndEvent) : Option (Nat × TaskStatus × Nat) :=
  match e.over_, tasks.find? fun t => t.id = e.active with
  | some over_, some dragged =>
    let target := dropTarget tasks dragged over_
    if dragged.status = target.1 ∧ dragged.position = target.2 then none else some (dragged.id, target.1, target.2)
  | _, _ => none

/-! ## The server -/

/-- `createTask`: a task in the first column, with the position that the table gives it. -/
def Board.createTask (b : Board) : Board := ⟨b.tasks ++ [⟨b.nextId, .todo, 0⟩], b.nextId + 1⟩

/-- `moveTask`; `none` when there is no such task. -/
def Board.moveTask (taskId : Nat) (status : TaskStatus) (position : Nat) (b : Board) : Option Board :=
  match b.tasks.find? fun t => t.id = taskId with
  | none => none
  | some _ =>
    some { b with
      tasks := b.tasks.map fun t => if t.id = taskId then { t with status := status, position := position } else t }

inductive BoardEvent where
  | create
  | drag (e : DragEndEvent)

def step : BoardEvent → Board → Option Board
  | .create, b => some b.createTask
  | .drag e, b =>
    match handleDragEnd b.tasks e with
    | none => some b
    | some (taskId, status, position) => b.moveTask taskId status position

/-! ## What is to be shown -/

/-- The tasks that a column shows. -/
def Board.shown (b : Board) (column : TaskStatus) : List Nat := (tasksByColumn b.tasks column).map Task.id

/-- The column shows what it showed with the task at the index, and the others what they showed without it. -/
structure Shows (b b' : Board) (taskId : Nat) (column : TaskStatus) (i : Nat) : Prop where
  target : b'.shown column = ((b.shown column).filter fun id => id ≠ taskId).insertIdx i taskId
  others : ∀ other, other ≠ column → b'.shown other = (b.shown other).filter fun id => id ≠ taskId

/-- A task comes before another at a position: its own is lower, or the same and it was created before. -/
def Before (taskId i : Nat) (t : Task) : Prop := t.position < i ∨ t.position = i ∧ t.id < taskId

instance (taskId i : Nat) (t : Task) : Decidable (Before taskId i t) :=
  inferInstanceAs (Decidable (t.position < i ∨ t.position = i ∧ t.id < taskId))

/-- Of the other tasks of the column, as many as the index come before the task at that position. -/
def InPlace (b : Board) (taskId : Nat) (column : TaskStatus) (i : Nat) : Prop :=
  b.tasks.countP (fun t => t.status = column ∧ t.id ≠ taskId ∧ Before taskId i t) = i

instance (b : Board) (taskId : Nat) (column : TaskStatus) (i : Nat) : Decidable (InPlace b taskId column i) :=
  inferInstanceAs (Decidable (_ = i))

/-! ## One task and the others -/

section Columns
variable {d : Task} {l₁ l₂ : List Task} {column : TaskStatus}

/-- The tasks of a column among these. -/
def inColumn (column : TaskStatus) (tasks : List Task) : List Task := tasks.filter fun t => t.status = column

theorem tasksByColumn_of_status (h : d.status = column) :
    tasksByColumn (l₁ ++ d :: l₂) column = (inColumn column l₁ ++ d :: inColumn column l₂).insertionSort NotBehind := by
  unfold tasksByColumn inColumn
  rw [List.filter_append, List.filter_cons_of_pos (by simpa using h)]

theorem tasksByColumn_of_ne (h : d.status ≠ column) :
    tasksByColumn (l₁ ++ d :: l₂) column = (inColumn column l₁ ++ inColumn column l₂).insertionSort NotBehind := by
  unfold tasksByColumn inColumn
  rw [List.filter_append, List.filter_cons_of_neg (by simpa using h)]

/-- No other task has the id. -/
def Alone (d : Task) (l₁ l₂ : List Task) : Prop := ∀ t ∈ l₁ ++ l₂, t.id ≠ d.id

theorem Alone.sorted (h : Alone d l₁ l₂) {t : Task}
    (ht : t ∈ (inColumn column l₁ ++ inColumn column l₂).insertionSort NotBehind) : t.id ≠ d.id := by
  apply h t
  rcases List.mem_append.mp ((List.mem_insertionSort NotBehind).mp ht) with ht | ht
  · exact List.mem_append_left _ (List.mem_filter.mp ht).1
  · exact List.mem_append_right _ (List.mem_filter.mp ht).1

/-- What a column shows without a task is what it shows of the others. -/
theorem Alone.shown_without (h : Alone d l₁ l₂) (column : TaskStatus) :
    ((tasksByColumn (l₁ ++ d :: l₂) column).map Task.id).filter (fun id => id ≠ d.id) =
      ((inColumn column l₁ ++ inColumn column l₂).insertionSort NotBehind).map Task.id := by
  have hkeep : ∀ tasks : List Task, (∀ t ∈ tasks, t.id ≠ d.id) →
      (tasks.map Task.id).filter (fun id => id ≠ d.id) = tasks.map Task.id := by
    intro tasks htasks
    apply List.filter_eq_self.mpr
    intro id hid
    obtain ⟨t, ht, rfl⟩ := List.mem_map.mp hid
    simpa using htasks t ht
  by_cases hstatus : d.status = column
  · obtain ⟨before, after, hwith, hwithout, -⟩ := insertionSort_around (r := NotBehind) d (inColumn column l₁)
      (inColumn column l₂)
    have hothers : ∀ t ∈ before ++ after, t.id ≠ d.id := fun t ht => h.sorted (hwithout ▸ ht)
    rw [tasksByColumn_of_status hstatus, hwith, hwithout, List.map_append, List.map_append, List.map_cons,
      List.filter_append, List.filter_cons_of_neg (by simp),
      hkeep before fun t ht => hothers t (List.mem_append_left _ ht),
      hkeep after fun t ht => hothers t (List.mem_append_right _ ht)]
  · rw [tasksByColumn_of_ne hstatus]
    exact hkeep _ fun t ht => h.sorted ht

/-- An id that is inserted where another list has it is inserted there. -/
theorem insertIdx_eq_iff {x : Nat} {before after : List Nat} (hx : x ∉ before ++ after) {i : Nat}
    (hi : i ≤ (before ++ after).length) :
    before ++ x :: after = (before ++ after).insertIdx i x ↔ before.length = i := by
  induction before generalizing i with
  | nil =>
      cases i with
      | zero => simp
      | succ i =>
          cases after with
          | nil => exact absurd hi (Nat.not_succ_le_zero i)
          | cons a after =>
              refine ⟨fun heq => ?_, fun h => by cases h⟩
              have hxa : x = a := (List.cons.inj heq).1
              exact absurd (hxa ▸ List.mem_cons_self) hx
  | cons b before ih =>
      cases i with
      | zero =>
          refine ⟨fun heq => ?_, fun h => by cases h⟩
          have hbx : b = x := (List.cons.inj heq).1
          exact absurd (hbx ▸ List.mem_cons_self) hx
      | succ i =>
          have htail := ih (i := i) (fun hmem => hx (List.mem_cons_of_mem _ hmem)) (Nat.le_of_succ_le_succ hi)
          simp only [List.cons_append, List.insertIdx_succ_cons, List.cons.injEq, true_and, List.length_cons,
            Nat.add_right_cancel_iff]
          exact htail

end Columns

/-! ## A drag -/

section Drag
variable {b b' : Board} {d : Task} {l₁ l₂ : List Task} {column : TaskStatus} {i : Nat}

/-- The ids are in order, and the next is new. -/
structure InOrder (b : Board) : Prop where
  sorted : b.tasks.Pairwise fun t u => t.id < u.id
  old : ∀ t ∈ b.tasks, t.id < b.nextId

/-- A task among the others, in the order of creation. -/
structure Splits (b : Board) (d : Task) (l₁ l₂ : List Task) : Prop where
  tasks : b.tasks = l₁ ++ d :: l₂
  earlier : ∀ t ∈ l₁, t.id < d.id
  later : ∀ t ∈ l₂, d.id < t.id

theorem InOrder.splits (h : InOrder b) (hd : d ∈ b.tasks) : ∃ l₁ l₂, Splits b d l₁ l₂ := by
  obtain ⟨l₁, l₂, heq⟩ := List.append_of_mem hd
  have hsorted := h.sorted
  rw [heq] at hsorted
  obtain ⟨-, hright, hcross⟩ := List.pairwise_append.mp hsorted
  exact ⟨l₁, l₂, heq, fun t ht => hcross t ht d List.mem_cons_self, (List.pairwise_cons.mp hright).1⟩

theorem Splits.alone (h : Splits b d l₁ l₂) : Alone d l₁ l₂ := by
  intro t ht
  rcases List.mem_append.mp ht with ht | ht
  · exact (h.earlier t ht).ne
  · exact (h.later t ht).ne'

theorem before_iff_notBehind {t : Task} {id : Nat} (h : t.id < id) (column : TaskStatus) (i : Nat) :
    Before id i t ↔ NotBehind t ⟨id, column, i⟩ := by
  show (t.position < i ∨ t.position = i ∧ t.id < id) ↔ t.position ≤ i
  omega

theorem before_iff_not_notBehind {t : Task} {id : Nat} (h : id < t.id) (column : TaskStatus) (i : Nat) :
    Before id i t ↔ ¬ NotBehind ⟨id, column, i⟩ t := by
  show (t.position < i ∨ t.position = i ∧ t.id < id) ↔ ¬ i ≤ t.position
  omega

theorem Splits.countP_before (h : Splits b d l₁ l₂) (column : TaskStatus) (i : Nat) :
    b.tasks.countP (fun t => t.status = column ∧ t.id ≠ d.id ∧ Before d.id i t) =
      (inColumn column l₁).countP (fun t => NotBehind t ⟨d.id, column, i⟩) +
        (inColumn column l₂).countP (fun t => ¬ NotBehind ⟨d.id, column, i⟩ t) := by
  unfold inColumn
  rw [h.tasks, List.countP_append, List.countP_cons_of_neg (by simp), List.countP_filter, List.countP_filter]
  congr 1
  · apply List.countP_congr
    intro t ht
    have hlt := h.earlier t ht
    rw [Bool.and_eq_true, decide_eq_true_iff, decide_eq_true_iff, decide_eq_true_iff,
      before_iff_notBehind hlt column i]
    constructor
    · rintro ⟨hstatus, -, hbefore⟩
      exact ⟨hbefore, hstatus⟩
    · rintro ⟨hbefore, hstatus⟩
      exact ⟨hstatus, hlt.ne, hbefore⟩
  · apply List.countP_congr
    intro t ht
    have hlt := h.later t ht
    rw [Bool.and_eq_true, decide_eq_true_iff, decide_eq_true_iff, decide_eq_true_iff,
      before_iff_not_notBehind hlt column i]
    constructor
    · rintro ⟨hstatus, -, hbefore⟩
      exact ⟨hbefore, hstatus⟩
    · rintro ⟨hbefore, hstatus⟩
      exact ⟨hstatus, hlt.ne', hbefore⟩

/-- **The board with the task at a column and a position.** -/
theorem Splits.shows_iff_inPlace (h : Splits b d l₁ l₂) (hb' : b'.tasks = l₁ ++ ⟨d.id, column, i⟩ :: l₂)
    (hi : i ≤ ((b.shown column).filter fun id => id ≠ d.id).length) :
    Shows b b' d.id column i ↔ InPlace b d.id column i := by
  have hothers : ∀ other, other ≠ column → b'.shown other = (b.shown other).filter fun id => id ≠ d.id := by
    intro other hother
    unfold Board.shown
    rw [hb', h.tasks, h.alone.shown_without, tasksByColumn_of_ne (Ne.symm hother)]
  obtain ⟨before, after, hwith, hwithout, hlength⟩ := insertionSort_around (r := NotBehind) ⟨d.id, column, i⟩
    (inColumn column l₁) (inColumn column l₂)
  have hwithout' : (b.shown column).filter (fun id => id ≠ d.id) = before.map Task.id ++ after.map Task.id := by
    unfold Board.shown
    rw [h.tasks, h.alone.shown_without, hwithout, List.map_append]
  have hwith' : b'.shown column = before.map Task.id ++ d.id :: after.map Task.id := by
    unfold Board.shown
    rw [hb', tasksByColumn_of_status rfl, hwith, List.map_append, List.map_cons]
  have hnew : d.id ∉ before.map Task.id ++ after.map Task.id := by
    rw [← List.map_append, ← hwithout]
    intro hmem
    obtain ⟨t, ht, hid⟩ := List.mem_map.mp hmem
    exact h.alone.sorted ht hid
  have htarget : b'.shown column = ((b.shown column).filter fun id => id ≠ d.id).insertIdx i d.id ↔
      InPlace b d.id column i := by
    rw [hwithout'] at hi ⊢
    rw [hwith', insertIdx_eq_iff hnew hi, List.length_map, hlength, InPlace, h.countP_before]
  exact ⟨fun hshows => htarget.mp hshows.target, fun hin => ⟨htarget.mpr hin, hothers⟩⟩

/-- A task is dropped at most behind all of the column. -/
theorem dropTarget_le (tasks : List Task) (d : Task) (over_ : Over) :
    (dropTarget tasks d over_).2 ≤
      (((tasksByColumn tasks (dropTarget tasks d over_).1).map Task.id).filter fun id => id ≠ d.id).length := by
  have hlength : ∀ column, (((tasksByColumn tasks column).map Task.id).filter fun id => id ≠ d.id).length =
      ((tasksByColumn tasks column).filter fun t => t.id ≠ d.id).length := by
    intro column
    rw [List.filter_map, List.length_map]
    rfl
  rw [hlength]
  unfold dropTarget
  dsimp only
  split
  next => exact le_rfl
  next t _ =>
    split_ifs
    · cases hfind : ((tasksByColumn tasks _).filter fun t => t.id ≠ d.id).findIdx? fun u => u.id = t.id with
      | none => exact le_rfl
      | some i => exact (List.findIdx?_eq_some_iff_getElem.mp hfind).1.le
    · exact le_rfl

/-- The board after a drag: the task is at the index as its position, also where nothing was asked. -/
theorem Splits.tasks_of_drag (h : Splits b d l₁ l₂) {e : DragEndEvent} {over_ : Over} (hover : e.over_ = some over_)
    (hd : b.tasks.find? (fun t => t.id = e.active) = some d) (hstep : step (.drag e) b = some b') :
    b'.tasks = l₁ ++ ⟨d.id, (dropTarget b.tasks d over_).1, (dropTarget b.tasks d over_).2⟩ :: l₂ := by
  have hmove : ∀ status position, (b.tasks.map fun t =>
      if t.id = d.id then { t with status := status, position := position } else t) =
        l₁ ++ ⟨d.id, status, position⟩ :: l₂ := by
    intro status position
    have hkeep : ∀ tasks : List Task, (∀ t ∈ tasks, t.id ≠ d.id) →
        (tasks.map fun t =>
          if t.id = d.id then { t with status := status, position := position } else t) = tasks := by
      intro tasks htasks
      exact (List.map_congr_left fun t ht => if_neg (htasks t ht)).trans (List.map_id tasks)
    rw [h.tasks, List.map_append, List.map_cons, if_pos rfl,
      hkeep l₁ fun t ht => (h.earlier t ht).ne, hkeep l₂ fun t ht => (h.later t ht).ne']
  have hfound : b.tasks.find? (fun t => t.id = d.id) = some d := by
    have hid : d.id = e.active := by simpa using List.find?_some hd
    rw [hid]
    exact hd
  simp only [step, handleDragEnd, hover, hd] at hstep
  split_ifs at hstep with hsame
  · obtain rfl := Option.some.inj hstep
    rw [← hsame.1, ← hsame.2]
    exact h.tasks
  · simp only [Board.moveTask, hfound] at hstep
    obtain rfl := Option.some.inj hstep
    exact hmove _ _

/-! ## Runs -/

theorem InOrder.of_create (h : InOrder b) : InOrder b.createTask where
  sorted := List.pairwise_append.mpr ⟨h.sorted, List.pairwise_singleton _ _, fun t ht u hu => by
    rw [List.mem_singleton.mp hu]
    exact h.old t ht⟩
  old t ht := by
    rcases List.mem_append.mp ht with ht | ht
    · exact (h.old t ht).trans (Nat.lt_succ_self _)
    · rw [List.mem_singleton.mp ht]
      exact Nat.lt_succ_self _

theorem InOrder.of_moveTask {taskId position : Nat} {status : TaskStatus} (h : InOrder b)
    (hmove : b.moveTask taskId status position = some b') : InOrder b' := by
  unfold Board.moveTask at hmove
  split at hmove
  next => cases hmove
  next =>
    obtain rfl := Option.some.inj hmove
    have hid : ∀ t : Task,
        (if t.id = taskId then { t with status := status, position := position } else t).id = t.id := by
      intro t
      split_ifs <;> rfl
    constructor
    · refine List.pairwise_map.mpr (h.sorted.imp fun {t u} hlt => ?_)
      rw [hid, hid]
      exact hlt
    · intro t ht
      obtain ⟨u, hu, rfl⟩ := List.mem_map.mp ht
      rw [hid]
      exact h.old u hu

theorem InOrder.of_step {e : BoardEvent} (h : InOrder b) (hstep : step e b = some b') : InOrder b' := by
  cases e with
  | create =>
      obtain rfl := Option.some.inj hstep
      exact h.of_create
  | drag e =>
      simp only [step] at hstep
      split at hstep
      next =>
        obtain rfl := Option.some.inj hstep
        exact h
      next => exact h.of_moveTask hstep

theorem inOrder_of_reached (h : Reached step (fun _ _ => True) Board.empty b) : InOrder b :=
  h.inv ⟨List.Pairwise.nil, fun _ ht => absurd ht List.not_mem_nil⟩ fun _ _ _ hs _ hstep => hs.of_step hstep

/-- **Dragging a task.** On every board that creating and dragging tasks leads to, a drag of a task shows it at the
index where it is dropped, and leaves the other columns in order, exactly when the task is in place. -/
theorem shows_iff (h : Reached step (fun _ _ => True) Board.empty b) {e : DragEndEvent} {over_ : Over}
    (hd : b.tasks.find? (fun t => t.id = e.active) = some d) (hover : e.over_ = some over_)
    (hstep : step (.drag e) b = some b') :
    Shows b b' d.id (dropTarget b.tasks d over_).1 (dropTarget b.tasks d over_).2 ↔
      InPlace b d.id (dropTarget b.tasks d over_).1 (dropTarget b.tasks d over_).2 := by
  obtain ⟨l₁, l₂, hsplits⟩ := (inOrder_of_reached h).splits (List.mem_of_find?_eq_some hd)
  exact hsplits.shows_iff_inPlace (hsplits.tasks_of_drag hover hd hstep) (dropTarget_le b.tasks d over_)

end Drag

/-- The third of three new tasks is dragged to the second column. -/
def threeTasks : List BoardEvent := [.create, .create, .create, .drag ⟨2, some (.column .inProgress)⟩]

/-- Then the first is dragged onto it, and shown before it. -/
theorem shows_iff_threeTasks :
    Shows (endOf step Board.empty threeTasks)
      (endOf step Board.empty (threeTasks ++ [.drag ⟨0, some (.task 2)⟩])) 0 .inProgress 0 := by
  have hreached : Reached step (fun _ _ => True) Board.empty (endOf step Board.empty threeTasks) :=
    reached_endOf (allowed_true Board.empty threeTasks) (by decide)
  exact (shows_iff (d := ⟨0, .todo, 0⟩) (e := ⟨0, some (.task 2)⟩) hreached (by decide) rfl (by decide)).mpr
    (by decide)

/-- Two new tasks; the second is dragged onto the first. -/
def twoTasks : List BoardEvent := [.create, .create]

/-- The second stays behind the first. -/
theorem not_shows_twoTasks :
    Reached step (fun _ _ => True) Board.empty (endOf step Board.empty twoTasks) ∧
      dropTarget (endOf step Board.empty twoTasks).tasks ⟨1, .todo, 0⟩ (.task 0) = (.todo, 0) ∧
      ∃ b', step (.drag ⟨1, some (.task 0)⟩) (endOf step Board.empty twoTasks) = some b' ∧
        b'.shown .todo = [0, 1] ∧ ¬ Shows (endOf step Board.empty twoTasks) b' 1 .todo 0 := by
  refine ⟨reached_endOf (allowed_true Board.empty twoTasks) (by decide), by decide, endOf step Board.empty twoTasks,
    by decide, by decide, fun hshows => ?_⟩
  exact absurd hshows.target (by decide)

end TimeChamp.Projects
