import PropShear.Proofs.Except
import PropShear.Proofs.Log.Delivery

/-! Several workers on one list of tasks.

A worker that is free takes the first task that waits. It looks at the tree of files, which gives a
result and records, logs the records one by one, and ends the task; others may do the same between
any two of these steps. The results are collected in the order of the tasks, up to the first error.
However the workers interleave, each result is what a look at the tree gives after something was
logged (`Reaches.collects`). As long as the collector has to wait, a worker can go on (`progress`),
which comes to an end (`wellFounded_step`). -/
namespace PropShear.Pool

/-- How far a task has come. -/
inductive Stage (β : Type) where
  | waiting
  | running
  /-- The result is there, and records are still to be logged. -/
  | posting (b : β) (records : List Log.Record)
  | done (b : β)

structure Task (α β : Type) where
  input : α
  stage : Stage β

/-- The tasks, and what all workers share. -/
structure State (σ α β : Type) where
  shared : σ
  tasks : List (Task α β)

variable {σ α β γ ε : Type} {r : Log.Recorder σ} {look : Disk → α → β × List Log.Record}
  {workers : Nat}

namespace Task

/-- A worker has taken the task and not ended it. -/
def isBusy (t : Task α β) : Bool :=
  match t.stage with
  | .running => true
  | .posting _ _ => true
  | _ => false

def isWaiting (t : Task α β) : Bool :=
  match t.stage with
  | .waiting => true
  | _ => false

/-- How many steps it takes until the result is there. -/
def ahead (t : Task α β) : Nat :=
  match t.stage with
  | .waiting => 2
  | .running => 1
  | _ => 0

/-- How many steps it takes from the result to the end of the task. -/
def pending (t : Task α β) : Nat :=
  match t.stage with
  | .posting _ records => records.length + 1
  | _ => 0

end Task

/-- One step of one worker. -/
inductive Step (r : Log.Recorder σ) (look : Disk → α → β × List Log.Record) (workers : Nat) :
    State σ α β → State σ α β → Prop
  | start {s : σ} {before after : List (Task α β)} {a : α}
      (hfirst : before.any Task.isWaiting = false)
      (hfree : (before ++ ⟨a, .waiting⟩ :: after).countP Task.isBusy < workers) :
    Step r look workers ⟨s, before ++ ⟨a, .waiting⟩ :: after⟩ ⟨s, before ++ ⟨a, .running⟩ :: after⟩
  | look {s : σ} {before after : List (Task α β)} {a : α} :
    Step r look workers ⟨s, before ++ ⟨a, .running⟩ :: after⟩
      ⟨s, before ++ ⟨a, .posting (look (r.disk s) a).1 (look (r.disk s) a).2⟩ :: after⟩
  | post {s : σ} {before after : List (Task α β)} {a : α} {b : β} {record : Log.Record}
      {records : List Log.Record} :
    Step r look workers ⟨s, before ++ ⟨a, .posting b (record :: records)⟩ :: after⟩
      ⟨r.log s record, before ++ ⟨a, .posting b records⟩ :: after⟩
  | finish {s : σ} {before after : List (Task α β)} {a : α} {b : β} :
    Step r look workers ⟨s, before ++ ⟨a, .posting b []⟩ :: after⟩
      ⟨s, before ++ ⟨a, .done b⟩ :: after⟩

/-- What workers can come to when all tasks wait at first. -/
inductive Reaches (r : Log.Recorder σ) (look : Disk → α → β × List Log.Record) (workers : Nat)
    (s : σ) (inputs : List α) : State σ α β → Prop
  | start : Reaches r look workers s inputs ⟨s, inputs.map (⟨·, .waiting⟩)⟩
  | step {now next : State σ α β} (h : Reaches r look workers s inputs now)
      (hstep : Step r look workers now next) : Reaches r look workers s inputs next

/-- The results in the order of the tasks, up to the first error; nothing as long as a task before
that is not done. -/
def collect : List (Task α (Except ε γ)) → Option (Except ε (List γ))
  | [] => some (.ok [])
  | ⟨_, .done (.error e)⟩ :: _ => some (.error e)
  | ⟨_, .done (.ok c)⟩ :: rest => (collect rest).map fun r => r.map (c :: ·)
  | _ :: _ => none

/-! ### What a step keeps -/

/-- A result that is there comes from a look at the tree after something was logged. -/
def Task.Sound (r : Log.Recorder σ) (look : Disk → α → β × List Log.Record) (s : σ)
    (t : Task α β) : Prop :=
  ∀ b, (t.stage = .done b ∨ ∃ records, t.stage = .posting b records) → r.Yields look s t.input b

/-- Whatever workers have done, the shared state has only been logged to. -/
structure Sound (r : Log.Recorder σ) (look : Disk → α → β × List Log.Record) (s : σ)
    (inputs : List α) (now : State σ α β) : Prop where
  logged : r.Logged s now.shared
  inputs : now.tasks.map Task.input = inputs
  results : ∀ t ∈ now.tasks, t.Sound r look s

/-- Replacing a task keeps the others as they are. -/
theorem Sound.replace {s shared shared' : σ} {inputs : List α} {before after : List (Task α β)}
    {a : α} {stage stage' : Stage β}
    (h : Sound r look s inputs ⟨shared, before ++ ⟨a, stage⟩ :: after⟩)
    (hshared : r.Logged s shared') (htask : Task.Sound r look s ⟨a, stage'⟩) :
    Sound r look s inputs ⟨shared', before ++ ⟨a, stage'⟩ :: after⟩ where
  logged := hshared
  inputs := by
    rw [← h.inputs, List.map_append, List.map_append]
    rfl
  results t ht := by
    rcases List.mem_append.mp ht with hbefore | hrest
    · exact h.results t (List.mem_append_left _ hbefore)
    · rcases List.mem_cons.mp hrest with rfl | hafter
      · exact htask
      · exact h.results t (List.mem_append_right _ (List.mem_cons_of_mem _ hafter))

theorem Step.sound {s : σ} {inputs : List α} {now next : State σ α β}
    (h : Step r look workers now next) (hnow : Sound r look s inputs now) :
    Sound r look s inputs next := by
  cases h with
  | start hfirst hfree =>
    refine hnow.replace hnow.logged fun b hb => ?_
    rcases hb with hdone | ⟨records, hposting⟩
    · cases hdone
    · cases hposting
  | look =>
    refine hnow.replace hnow.logged fun b hb => ?_
    rcases hb with hdone | ⟨records, hposting⟩
    · cases hdone
    · cases hposting
      exact ⟨_, hnow.logged, rfl⟩
  | post =>
    refine hnow.replace (hnow.logged.step _) fun b hb => ?_
    rcases hb with hdone | ⟨records, hposting⟩
    · cases hdone
    · cases hposting
      exact hnow.results _ (List.mem_append_right _ List.mem_cons_self) _ (.inr ⟨_, rfl⟩)
  | finish =>
    refine hnow.replace hnow.logged fun b hb => ?_
    rcases hb with hdone | ⟨records, hposting⟩
    · cases hdone
      exact hnow.results _ (List.mem_append_right _ List.mem_cons_self) _ (.inr ⟨_, rfl⟩)
    · cases hposting

theorem Reaches.sound {s : σ} {inputs : List α} {now : State σ α β}
    (h : Reaches r look workers s inputs now) : Sound r look s inputs now := by
  induction h with
  | start =>
    refine ⟨.refl, by simp [Function.comp_def], fun t ht b hb => ?_⟩
    obtain ⟨a, -, rfl⟩ := List.mem_map.mp ht
    rcases hb with hdone | ⟨records, hposting⟩
    · cases hdone
    · cases hposting
  | step _ hstep ih => exact hstep.sound ih

/-! ### What is collected -/

/-- Tasks that are not done cannot change what is collected. -/
theorem collects {look : Disk → α → Except ε γ × List Log.Record} {s : σ}
    {tasks : List (Task α (Except ε γ))} (h : ∀ t ∈ tasks, t.Sound r look s)
    {result : Except ε (List γ)} (hresult : collect tasks = some result) :
    Collects (r.Yields look s) (tasks.map Task.input) result := by
  induction tasks generalizing result with
  | nil =>
    cases hresult
    exact .nil
  | cons t rest ih =>
    rw [List.forall_mem_cons] at h
    obtain ⟨a, stage⟩ := t
    rcases stage with _ | _ | ⟨b, records⟩ | ⟨e | c⟩
    · cases hresult
    · cases hresult
    · cases hresult
    · cases hresult
      exact .stop (h.1 _ (.inl rfl))
    · obtain ⟨more, hmore, rfl⟩ := Option.map_eq_some_iff.mp hresult
      exact .cons (h.1 _ (.inl rfl)) (ih h.2 hmore)

theorem Reaches.collects {look : Disk → α → Except ε γ × List Log.Record} {s : σ}
    {inputs : List α} {now : State σ α (Except ε γ)} (h : Reaches r look workers s inputs now)
    {result : Except ε (List γ)} (hresult : collect now.tasks = some result) :
    Collects (r.Yields look s) inputs result := by
  have hall := Pool.collects h.sound.results hresult
  rwa [h.sound.inputs] at hall

/-! ### Progress -/

/-- A worker can go on unless every task is done: one that works can take its next step, and if none
works, all are free. -/
theorem step_of_open (hworkers : 0 < workers) {s : σ} {tasks : List (Task α β)} {t : Task α β}
    (ht : t ∈ tasks) (hopen : t.isBusy = true ∨ t.isWaiting = true) :
    ∃ next, Step r look workers ⟨s, tasks⟩ next := by
  by_cases hbusy : ∃ t ∈ tasks, t.isBusy = true
  · obtain ⟨⟨a, stage⟩, ht, hworks⟩ := hbusy
    obtain ⟨before, after, rfl⟩ := List.append_of_mem ht
    rcases stage with _ | _ | ⟨b, records⟩ | b
    · cases hworks
    · exact ⟨_, .look⟩
    · cases records with
      | nil => exact ⟨_, .finish⟩
      | cons record more => exact ⟨_, .post⟩
    · cases hworks
  · have hidle : tasks.countP Task.isBusy = 0 :=
      List.countP_eq_zero.mpr fun t ht hworks => hbusy ⟨t, ht, hworks⟩
    have hwaiting : t.isWaiting = true := hopen.resolve_left fun hworks => hbusy ⟨t, ht, hworks⟩
    obtain ⟨⟨a, stage⟩, before, after, hbefore, hfirst, rfl, -⟩ :=
      List.exists_of_eraseP (p := Task.isWaiting) ht hwaiting
    rcases stage with _ | _ | ⟨b, records⟩ | b
    · refine ⟨_, .start ?_ (hidle ▸ hworkers)⟩
      simpa using hbefore
    · cases hfirst
    · cases hfirst
    · cases hfirst

theorem collect_of_done {tasks : List (Task α (Except ε γ))}
    (h : ∀ t ∈ tasks, ∃ b, t.stage = .done b) : ∃ result, collect tasks = some result := by
  induction tasks with
  | nil => exact ⟨_, rfl⟩
  | cons t rest ih =>
    rw [List.forall_mem_cons] at h
    obtain ⟨a, stage⟩ := t
    obtain ⟨⟨b, hb⟩, hrest⟩ := h
    cases hb
    cases b with
    | error e => exact ⟨_, rfl⟩
    | ok c =>
      obtain ⟨result, hresult⟩ := ih hrest
      exact ⟨_, by rw [collect, hresult, Option.map_some]⟩

theorem progress {look : Disk → α → Except ε γ × List Log.Record} (hworkers : 0 < workers)
    {now : State σ α (Except ε γ)} (h : collect now.tasks = none) :
    ∃ next, Step r look workers now next := by
  by_cases hopen : ∃ t ∈ now.tasks, t.isBusy = true ∨ t.isWaiting = true
  · obtain ⟨t, ht, hopen⟩ := hopen
    exact step_of_open hworkers ht hopen
  · have hdone : ∀ t ∈ now.tasks, ∃ b, t.stage = .done b := by
      rintro ⟨a, stage⟩ ht
      rcases stage with _ | _ | ⟨b, records⟩ | b
      · exact (hopen ⟨_, ht, .inr rfl⟩).elim
      · exact (hopen ⟨_, ht, .inl rfl⟩).elim
      · exact (hopen ⟨_, ht, .inl rfl⟩).elim
      · exact ⟨b, rfl⟩
    obtain ⟨result, hresult⟩ := collect_of_done hdone
    rw [hresult] at h
    cases h

/-! ### The end -/

/-- What tasks weigh together. -/
def total (weigh : Task α β → Nat) (tasks : List (Task α β)) : Nat :=
  tasks.foldr (fun t n => weigh t + n) 0

theorem total_append (weigh : Task α β → Nat) (before after : List (Task α β)) (t : Task α β) :
    total weigh (before ++ t :: after) = total weigh before + weigh t + total weigh after := by
  unfold total
  induction before with
  | nil => simp
  | cons first rest ih =>
    rw [List.cons_append, List.foldr_cons, List.foldr_cons, ih]
    omega

/-- How many steps it takes until all results are there, and from these results to the end. -/
def State.left (now : State σ α β) : Nat × Nat :=
  (total Task.ahead now.tasks, total Task.pending now.tasks)

/-- Looking at the tree may give any number of records, but each task does so once. So there are
less results to come with each step, or as many and less to do for those that are there. -/
theorem Step.decreases {now next : State σ α β} (h : Step r look workers now next) :
    Prod.Lex (· < ·) (· < ·) next.left now.left := by
  unfold State.left
  cases h with
  | start hfirst hfree =>
    refine Prod.Lex.left _ _ ?_
    simp only [total_append, Task.ahead]
    omega
  | look =>
    refine Prod.Lex.left _ _ ?_
    simp only [total_append, Task.ahead]
    omega
  | post =>
    simp only [total_append, Task.ahead, Task.pending, List.length_cons]
    exact Prod.Lex.right _ (by omega)
  | finish =>
    simp only [total_append, Task.ahead, Task.pending, List.length_nil]
    exact Prod.Lex.right _ (by omega)

/-- Workers cannot go on forever. -/
theorem wellFounded_step (r : Log.Recorder σ) (look : Disk → α → β × List Log.Record)
    (workers : Nat) :
    WellFounded fun next now : State σ α β => Step r look workers now next := by
  have hleft := InvImage.wf (State.left (σ := σ) (α := α) (β := β))
    (Prod.lex Nat.lt_wfRel Nat.lt_wfRel).wf
  exact Subrelation.wf (fun hstep => hstep.decreases) hleft

end PropShear.Pool
