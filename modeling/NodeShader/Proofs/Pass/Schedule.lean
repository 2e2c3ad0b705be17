import Mathlib.Logic.Function.Basic
import NodeShader.Proofs.Pass.Cycle
import NodeShader.Proofs.Pass.Published

/-!
# Schedules

The two stages of a program are compiled at the same time, each by a job of its own. The jobs share a
board on which the first error is kept; when it is there, a job that has not begun is called off. The
moves of one job are `Job.Moves`, and a schedule is a sequence of moves of either job (`Jobs.Step`).

A job works on its own pass, so that whatever the other does, its pass ends as it would alone
(`Job.Sound`). A job is called off only when an error has been kept, and the error that is kept is
therefore the cycle of a stage and never a call-off (`Board.Sound`). From the two follow what the
caller is given after any schedule, and that compiling one stage after the other gives no other
answer than some schedule.
-/

namespace NodeShader

open Relation (ReflTransGen)

/-! ## Jobs and their moves -/

/-- Why a job ends without a pass. -/
inductive JobError where
  /-- It was called off before it began. -/
  | canceled
  | compile (e : CompileError)
  deriving DecidableEq, Repr

/-- How far the job of a stage has come. -/
inductive Job where
  | waiting
  /-- It has the roots in `todo` before it. -/
  | running (todo : List NodeId) (p : Pass)
  | failed (e : JobError)
  /-- Its error was kept, and the other job has not been called off yet. -/
  | telling
  | ended (p? : Option Pass)

/-- What the jobs share. -/
structure Board where
  /-- The first error. -/
  kept : Option JobError := none
  canceled : Bool := false

/-- What the job of a stage can do next. -/
inductive Job.Moves (g : ShaderGraph) (r : Registry) (o : Options) (s : Stage) :
    Board → Job → Board → Job → Prop
  | start {b : Board} (hb : b.canceled = false) :
      Moves g r o s b .waiting b (.running ((Pass.start g r s o : Pass).roots g) (Pass.start g r s o))
  | refuse {b : Board} (hb : b.canceled = true) :
      Moves g r o s b .waiting b (.failed .canceled)
  | evaluate {b : Board} {id : NodeId} {todo : List NodeId} {p q : Pass}
      (hnode : Pass.evaluateNode g id p = (.ok (), q)) :
      Moves g r o s b (.running (id :: todo) p) b (.running todo q)
  | abort {b : Board} {id : NodeId} {todo : List NodeId} {p q : Pass} {c : Cycle}
      (hnode : Pass.evaluateNode g id p = (.error c, q)) :
      Moves g r o s b (.running (id :: todo) p) b (.failed (.compile (.cycle s c)))
  | finish {b : Board} {p : Pass} : Moves g r o s b (.running [] p) b (.ended (some p.finish))
  | keep {b : Board} {e : JobError} (hb : b.kept = none) :
      Moves g r o s b (.failed e) { b with kept := some e } .telling
  | tell {b : Board} : Moves g r o s b .telling { b with canceled := true } (.ended none)
  | drop {b : Board} {e : JobError} (hb : b.kept.isSome = true) :
      Moves g r o s b (.failed e) b (.ended none)

/-- The jobs of a program. -/
structure Jobs where
  board : Board := {}
  job : Stage → Job := fun _ => .waiting

namespace Jobs

/-- The jobs with one of them and the board changed. -/
def put (σ : Jobs) (s : Stage) (b : Board) (j : Job) : Jobs := ⟨b, Function.update σ.job s j⟩

@[simp] theorem board_put (σ : Jobs) (s : Stage) (b : Board) (j : Job) :
    (σ.put s b j).board = b := rfl

@[simp] theorem job_put_self (σ : Jobs) (s : Stage) (b : Board) (j : Job) :
    (σ.put s b j).job s = j := Function.update_self ..

theorem job_put_of_ne (σ : Jobs) {s t : Stage} (h : t ≠ s) (b : Board) (j : Job) :
    (σ.put s b j).job t = σ.job t := Function.update_of_ne h ..

@[simp] theorem put_put (σ : Jobs) (s : Stage) (b b' : Board) (j j' : Job) :
    (σ.put s b j).put s b' j' = σ.put s b' j' := by
  simp only [put, Function.update_idem]

/-- One of the jobs moves. -/
inductive Step (g : ShaderGraph) (r : Registry) (o : Options) : Jobs → Jobs → Prop
  | move {σ : Jobs} {s : Stage} {b : Board} {j : Job} (hs : s ∈ Stage.all)
      (hmove : Job.Moves g r o s σ.board (σ.job s) b j) : Step g r o σ (σ.put s b j)

/-- What the caller is given when both jobs have ended. Without an error the states go to the nodes,
those of the vertex stage first. -/
def answer? (σ : Jobs) (g : ShaderGraph) : Option (Except JobError Program × ShaderGraph) :=
  match σ.board.kept, σ.job .vertex, σ.job .fragment with
  | some e, .ended _, .ended _ => some (.error e, g)
  | none, .ended (some v), .ended (some f) =>
    some (.ok ⟨v.compiled g, f.compiled g⟩, f.publishWhere (·.state.evaluated) (v.publish g))
  | _, _, _ => none

end Jobs

variable {g : ShaderGraph} {r : Registry} {o : Options}

/-! ## Schedules end -/

/-- How many moves a job has left at most, if its stage has `n` roots. -/
def Job.left (n : Nat) : Job → Nat
  | .waiting => n + 4
  | .running todo _ => todo.length + 3
  | .failed _ => 2
  | .telling => 1
  | .ended _ => 0

theorem Job.Moves.left_lt {s : Stage} {b b' : Board} {j j' : Job} (h : Moves g r o s b j b' j') :
    j'.left ((Pass.start g r s o : Pass).roots g).length <
      j.left ((Pass.start g r s o : Pass).roots g).length := by
  cases h <;> simp only [left, List.length_cons] <;> omega

/-- A job that has not ended can move. -/
theorem Job.exists_moves (g : ShaderGraph) (r : Registry) (o : Options) (s : Stage) (b : Board)
    (j : Job) : (∃ p?, j = .ended p?) ∨ ∃ b' j', Moves g r o s b j b' j' := by
  cases j with
  | waiting =>
      cases hb : b.canceled with
      | false => exact .inr ⟨_, _, .start hb⟩
      | true => exact .inr ⟨_, _, .refuse hb⟩
  | running todo p =>
      cases todo with
      | nil => exact .inr ⟨_, _, .finish⟩
      | cons id todo =>
          cases hnode : Pass.evaluateNode g id p with
          | mk result q =>
              cases result with
              | ok u => exact .inr ⟨_, _, .evaluate hnode⟩
              | error c => exact .inr ⟨_, _, .abort hnode⟩
  | failed e =>
      cases hb : b.kept with
      | none => exact .inr ⟨_, _, .keep hb⟩
      | some e' => exact .inr ⟨_, _, .drop (by simp [hb])⟩
  | telling => exact .inr ⟨_, _, .tell⟩
  | ended p? => exact .inl ⟨p?, rfl⟩

namespace Jobs

/-- How many moves the jobs have left at most. -/
def left (g : ShaderGraph) (r : Registry) (o : Options) (σ : Jobs) : Nat :=
  (σ.job .vertex).left ((Pass.start g r .vertex o : Pass).roots g).length +
    (σ.job .fragment).left ((Pass.start g r .fragment o : Pass).roots g).length

theorem Step.left_lt {σ τ : Jobs} (h : Step g r o σ τ) : τ.left g r o < σ.left g r o := by
  obtain ⟨hs, hmove⟩ := h
  have hlt := hmove.left_lt
  have hne : Stage.fragment ≠ Stage.vertex := by decide
  simp only [Stage.all, List.mem_cons, List.not_mem_nil, or_false] at hs
  rcases hs with rfl | rfl
  · simp only [left, job_put_self, job_put_of_ne _ hne]
    omega
  · simp only [left, job_put_self, job_put_of_ne _ hne.symm]
    omega

/-- There is no schedule without an end. -/
theorem wellFounded_step : WellFounded fun τ σ => Step g r o σ τ :=
  Subrelation.wf (fun h => h.left_lt) (measure (left g r o)).wf

/-- When no job can move, both have ended. -/
theorem ended_of_stuck {σ : Jobs} (hstuck : ∀ τ, ¬ Step g r o σ τ) {s : Stage} (hs : s ∈ Stage.all) :
    ∃ p?, σ.job s = .ended p? := by
  rcases Job.exists_moves g r o s σ.board (σ.job s) with hended | ⟨b, j, hmove⟩
  · exact hended
  · exact absurd (.move hs hmove) (hstuck _)

end Jobs

/-! ## What every schedule keeps -/

/-- The error that is kept is the cycle of a stage, and jobs are called off only after one. -/
structure Board.Sound (g : ShaderGraph) (r : Registry) (o : Options) (b : Board) : Prop where
  canceled : b.canceled = true → b.kept.isSome = true
  kept : ∀ e, b.kept = some e → ∃ s ∈ Stage.all, ∃ c q,
    e = .compile (.cycle s c) ∧ (Pass.start g r s o : Pass).run g = (.error c, q)

/-- A job has its pass where it would be without the other job, and it ends without one only when an
error has been kept. -/
def Job.Sound (g : ShaderGraph) (r : Registry) (o : Options) (s : Stage) (b : Board) : Job → Prop
  | .waiting => True
  | .running todo p => Pass.evaluateAll g todo p =
      Pass.evaluateAll g ((Pass.start g r s o : Pass).roots g) (Pass.start g r s o)
  | .failed .canceled => b.kept.isSome = true
  | .failed (.compile e) => ∃ c q, e = .cycle s c ∧ (Pass.start g r s o : Pass).run g = (.error c, q)
  | .telling => b.kept.isSome = true
  | .ended none => b.kept.isSome = true
  | .ended (some p) => (Pass.start g r s o : Pass).run g = (.ok (), p)

theorem Job.Sound.mono {s : Stage} {b b' : Board} {j : Job} (h : j.Sound g r o s b)
    (hkept : b.kept.isSome = true → b'.kept.isSome = true) : j.Sound g r o s b' := by
  match j, h with
  | .waiting, h => exact h
  | .running _ _, h => exact h
  | .failed .canceled, h => exact hkept h
  | .failed (.compile _), h => exact h
  | .telling, h => exact hkept h
  | .ended none, h => exact hkept h
  | .ended (some _), h => exact h

theorem Job.Moves.kept {s : Stage} {b b' : Board} {j j' : Job} (h : Moves g r o s b j b' j')
    (hkept : b.kept.isSome = true) : b'.kept.isSome = true := by
  cases h with
  | keep => rfl
  | start | refuse | evaluate | abort | finish | tell | drop => exact hkept

/-- A move keeps the board and the job sound. -/
theorem Job.Moves.sound {s : Stage} {b b' : Board} {j j' : Job} (h : Moves g r o s b j b' j')
    (hs : s ∈ Stage.all) (hb : b.Sound g r o) (hj : j.Sound g r o s b) :
    b'.Sound g r o ∧ j'.Sound g r o s b' := by
  cases h with
  | start => exact ⟨hb, rfl⟩
  | refuse hcanceled => exact ⟨hb, hb.canceled hcanceled⟩
  | evaluate hnode =>
      refine ⟨hb, ?_⟩
      simpa only [Sound, Pass.evaluateAll, hnode] using hj
  | @abort id todo p q c hnode =>
      refine ⟨hb, c, q, rfl, ?_⟩
      have hhere : Pass.evaluateAll g (id :: todo) p = (.error c, q) := by
        simp only [Pass.evaluateAll, hnode]
      have hall : Pass.evaluateAll g ((Pass.start g r s o : Pass).roots g) (Pass.start g r s o) =
          (.error c, q) := Eq.trans hj.symm hhere
      simp only [Pass.run, hall]
  | finish =>
      refine ⟨hb, ?_⟩
      simp only [Sound, Pass.evaluateAll] at hj ⊢
      simp only [Pass.run, ← hj]
  | @keep e hnone =>
      refine ⟨⟨fun _ => rfl, fun e' he' => ?_⟩, rfl⟩
      cases he'
      cases e with
      | canceled => exact absurd hj (by simp [Sound, hnone])
      | compile e =>
          obtain ⟨c, q, rfl, hrun⟩ := hj
          exact ⟨s, hs, c, q, rfl, hrun⟩
  | tell => exact ⟨⟨fun _ => hj, hb.kept⟩, hj⟩
  | drop hkept => exact ⟨hb, hkept⟩

namespace Jobs

structure Sound (g : ShaderGraph) (r : Registry) (o : Options) (σ : Jobs) : Prop where
  board : σ.board.Sound g r o
  job : ∀ s ∈ Stage.all, (σ.job s).Sound g r o s σ.board

theorem Sound.step {σ τ : Jobs} (hσ : σ.Sound g r o) (h : Step g r o σ τ) : τ.Sound g r o := by
  obtain @⟨s, b, j, hs, hmove⟩ := h
  obtain ⟨hb, hj⟩ := hmove.sound hs hσ.board (hσ.job s hs)
  refine ⟨hb, fun t ht => ?_⟩
  by_cases hts : t = s
  · subst hts
    simpa only [board_put, job_put_self] using hj
  · simpa only [board_put, job_put_of_ne _ hts] using (hσ.job t ht).mono hmove.kept

theorem sound_of_schedule {σ : Jobs} (h : ReflTransGen (Step g r o) {} σ) : σ.Sound g r o := by
  induction h with
  | refl => exact ⟨⟨fun h => absurd h (by simp), fun e h => absurd h (by simp)⟩, fun _ _ => trivial⟩
  | tail _ hstep ih => exact ih.step hstep

/-! ## One job after the other -/

/-- A job can do its work while the other stands still. -/
theorem steps_of_running {s : Stage} (hs : s ∈ Stage.all) (todo : List NodeId) (σ : Jobs) (p : Pass)
    (hjob : σ.job s = .running todo p) :
    (∀ q, Pass.evaluateAll g todo p = (.ok (), q) →
      ReflTransGen (Step g r o) σ (σ.put s σ.board (.ended (some q.finish)))) ∧
    ∀ c q, Pass.evaluateAll g todo p = (.error c, q) →
      ReflTransGen (Step g r o) σ (σ.put s σ.board (.failed (.compile (.cycle s c)))) := by
  induction todo generalizing σ p with
  | nil =>
      refine ⟨fun q h => ?_, fun c q h => absurd h (by simp [Pass.evaluateAll])⟩
      cases h
      exact .single (.move hs (hjob ▸ .finish))
  | cons id todo ih =>
      cases hnode : Pass.evaluateNode g id p with
      | mk result m =>
          cases result with
          | error c =>
              simp only [Pass.evaluateAll, hnode]
              refine ⟨fun q h => absurd h (by simp), fun c' q h => ?_⟩
              cases h
              exact .single (.move hs (hjob ▸ .abort hnode))
          | ok u =>
              have hfirst : Step g r o σ (σ.put s σ.board (.running todo m)) :=
                .move hs (hjob ▸ .evaluate hnode)
              obtain ⟨hok, herror⟩ := ih (σ.put s σ.board (.running todo m)) m (job_put_self ..)
              simp only [board_put, put_put] at hok herror
              simp only [Pass.evaluateAll, hnode]
              exact ⟨fun q h => .head hfirst (hok q h), fun c q h => .head hfirst (herror c q h)⟩

/-- A job that has not been called off can do the whole run of its pass while the other stands
still. -/
theorem steps_of_waiting {s : Stage} (hs : s ∈ Stage.all) {σ : Jobs} (hjob : σ.job s = .waiting)
    (hboard : σ.board.canceled = false) :
    (∀ q, (Pass.start g r s o : Pass).run g = (.ok (), q) →
      ReflTransGen (Step g r o) σ (σ.put s σ.board (.ended (some q)))) ∧
    ∀ c q, (Pass.start g r s o : Pass).run g = (.error c, q) →
      ReflTransGen (Step g r o) σ (σ.put s σ.board (.failed (.compile (.cycle s c)))) := by
  have hfirst : Step g r o σ
      (σ.put s σ.board (.running ((Pass.start g r s o : Pass).roots g) (Pass.start g r s o))) :=
    .move hs (hjob ▸ .start hboard)
  obtain ⟨hok, herror⟩ := steps_of_running (g := g) (r := r) (o := o) hs
    ((Pass.start g r s o : Pass).roots g) _ (Pass.start g r s o) (job_put_self σ s σ.board _)
  simp only [board_put, put_put] at hok herror
  cases hall : Pass.evaluateAll g ((Pass.start g r s o : Pass).roots g) (Pass.start g r s o) with
  | mk result m =>
      simp only [Pass.run, hall]
      cases result with
      | ok u =>
          refine ⟨fun q h => ?_, fun c q h => absurd h (by simp)⟩
          cases h
          exact .head hfirst (hok m hall)
      | error c =>
          refine ⟨fun q h => absurd h (by simp), fun c' q h => ?_⟩
          cases h
          exact .head hfirst (herror c m hall)

/-- The first job to fail leaves its error on the board and calls the other off. -/
theorem steps_of_failed {s : Stage} (hs : s ∈ Stage.all) {σ : Jobs} {e : JobError}
    (hjob : σ.job s = .failed e) (hboard : σ.board.kept = none) :
    ReflTransGen (Step g r o) σ (σ.put s ⟨some e, true⟩ (.ended none)) := by
  have hkeep : Step g r o σ (σ.put s { σ.board with kept := some e } .telling) :=
    .move hs (hjob ▸ .keep hboard)
  have htell : Step g r o (σ.put s { σ.board with kept := some e } .telling)
      ((σ.put s { σ.board with kept := some e } .telling).put s ⟨some e, true⟩ (.ended none)) :=
    .move hs ((job_put_self ..).symm ▸ .tell)
  rw [put_put] at htell
  exact .head hkeep (.single htell)

/-- A job that has been called off ends. -/
theorem steps_of_canceled {s : Stage} (hs : s ∈ Stage.all) {σ : Jobs} (hjob : σ.job s = .waiting)
    (hboard : σ.board.canceled = true) (hkept : σ.board.kept.isSome = true) :
    ReflTransGen (Step g r o) σ (σ.put s σ.board (.ended none)) := by
  have hrefuse : Step g r o σ (σ.put s σ.board (.failed .canceled)) :=
    .move hs (hjob ▸ .refuse hboard)
  have hdrop : Step g r o (σ.put s σ.board (.failed .canceled))
      ((σ.put s σ.board (.failed .canceled)).put s σ.board (.ended none)) :=
    .move hs ((job_put_self ..).symm ▸ .drop hkept)
  rw [put_put] at hdrop
  exact .head hrefuse (.single hdrop)

/-- What compiling one stage after the other gives is the answer after a schedule. -/
theorem exists_schedule_compileProgram (g : ShaderGraph) (r : Registry) (o : Options) :
    ∃ σ, ReflTransGen (Step g r o) {} σ ∧ σ.answer? g =
      some ((compileProgram g r o).outcome.mapError .compile, (compileProgram g r o).graph) := by
  have hv : Stage.vertex ∈ Stage.all := by decide
  have hf : Stage.fragment ∈ Stage.all := by decide
  have hne : Stage.vertex ≠ Stage.fragment := by decide
  obtain ⟨hvok, hverror⟩ := steps_of_waiting (g := g) (r := r) (o := o) hv (σ := {}) rfl rfl
  cases hvrun : (Pass.start g r .vertex o : Pass).run g with
  | mk vresult v =>
      cases vresult with
      | error c =>
          -- the fragment job is called off before it begins
          have hfirst := (hverror c v hvrun).trans (steps_of_failed hv (job_put_self ..) rfl)
          refine ⟨_, hfirst.trans (steps_of_canceled hf ?_ rfl rfl), ?_⟩
          · rw [put_put, job_put_of_ne _ hne.symm]
          · simp only [answer?, board_put, job_put_of_ne _ hne, job_put_self, put_put,
              compileProgram, runStage, hvrun, Except.mapError]
      | ok u =>
          have hfirst := hvok v hvrun
          obtain ⟨hfok, hferror⟩ := steps_of_waiting (g := g) (r := r) (o := o) hf
            (σ := Jobs.put {} .vertex {} (.ended (some v))) (job_put_of_ne _ hne.symm ..) rfl
          cases hfrun : (Pass.start g r .fragment o : Pass).run g with
          | mk fresult f =>
              cases fresult with
              | error c =>
                  refine ⟨_, (hfirst.trans (hferror c f hfrun)).trans
                    (steps_of_failed hf (job_put_self ..) rfl), ?_⟩
                  simp only [answer?, board_put, job_put_of_ne _ hne, job_put_self, put_put,
                    compileProgram, runStage, hvrun, hfrun, Except.mapError]
              | ok u =>
                  refine ⟨_, hfirst.trans (hfok f hfrun), ?_⟩
                  simp only [answer?, board_put, job_put_of_ne _ hne, job_put_self,
                    compileProgram, runStage, hvrun, hfrun, Except.mapError]

/-! ## What the caller is given -/

/-- An answer agrees with compiling the stages one by one: it is a program exactly when both stages
compile, and then it holds what they compile to, and every expression shows its state in the fragment
stage if it was evaluated there, and its state in the vertex stage otherwise. If there is no program,
the error is the cycle of a stage that does not compile, and the graph is as it was. -/
structure Agrees (g : ShaderGraph) (r : Registry) (o : Options)
    (answer : Except JobError Program × ShaderGraph) : Prop where
  succeeds : (∃ P, answer.1 = .ok P) ↔ ∀ s ∈ Stage.all, ∃ c, (compileStage g r s o).outcome = .ok c
  stages : ∀ P, answer.1 = .ok P →
    ∀ s ∈ Stage.all, (compileStage g r s o).outcome = .ok (P.stage s)
  states : ∀ P, answer.1 = .ok P → ∀ id e, g.expression? id = some e → ∃ sv sf,
    (runStage g r .vertex o).2.state? id = some sv ∧
    (runStage g r .fragment o).2.state? id = some sf ∧
    answer.2.expression? id = some { e with published := some (if sf.evaluated then sf else sv) }
  fails : ∀ e, answer.1 = .error e → answer.2 = g ∧ ∃ s ∈ Stage.all, ∃ c,
    e = .compile (.cycle s c) ∧ (compileStage g r s o).outcome = .error (.cycle s c)

theorem outcome_of_run {s : Stage} {p : Pass} (h : (Pass.start g r s o : Pass).run g = (.ok (), p)) :
    (compileStage g r s o).outcome = .ok (p.compiled g) := by
  simp only [compileStage, runStage, h]

theorem stage_of_run {s : Stage} {p : Pass} (h : (Pass.start g r s o : Pass).run g = (.ok (), p)) :
    (runStage g r s o).2 = p := by
  simp only [runStage, h]

/-- A state of the fragment stage covers that of the vertex stage if its node was evaluated. -/
theorem expression?_published (hg : g.BelongsTo r) {v f : Pass}
    (hv : (Pass.start g r .vertex o : Pass).run g = (.ok (), v))
    (hf : (Pass.start g r .fragment o : Pass).run g = (.ok (), f)) {id : NodeId} {e : Expression}
    (he : g.expression? id = some e) :
    ∃ sv sf, v.state? id = some sv ∧ f.state? id = some sf ∧
      (f.publishWhere (·.state.evaluated) (v.publish g)).expression? id =
        some { e with published := some (if sf.evaluated then sf else sv) } := by
  have hcons := hg.reachable.consistent
  obtain ⟨cv, hcv⟩ := Pass.exists_cell_of_run hg hv he
  obtain ⟨cf, hcf⟩ := Pass.exists_cell_of_run hg hf he
  have hfirst : (v.publish g).expression? id = some { e with published := some cv.state } :=
    Pass.expression?_publishWhere _ hcons.indexed (Pass.nodup_ids_of_run hcons.distinct hv)
      (Pass.attached_of_run hv) he hcv
  have hsecond := Pass.expression?_publishWhere (·.state.evaluated)
    (v.indexed_publish hcons.indexed) (Pass.nodup_ids_of_run hcons.distinct hf)
    (Pass.attached_of_run hf) hfirst hcf
  refine ⟨cv.state, cf.state, by simp [Pass.state?, hcv], by simp [Pass.state?, hcf], ?_⟩
  refine hsecond.trans ?_
  split <;> rfl

/-- The answer when an error was kept. -/
theorem agrees_of_kept {s : Stage} (hs : s ∈ Stage.all) {c : Cycle} {q : Pass}
    (hrun : (Pass.start g r s o : Pass).run g = (.error c, q)) :
    Agrees g r o (.error (.compile (.cycle s c)), g) := by
  have hfails : (compileStage g r s o).outcome = .error (.cycle s c) := by
    rw [compileStage_of_run_error hrun]
  constructor
  · refine iff_of_false (by simp) fun hall => ?_
    obtain ⟨P, hok⟩ := hall s hs
    exact absurd (hfails.symm.trans hok) (by simp)
  · exact fun P h => absurd h (by simp)
  · exact fun P h => absurd h (by simp)
  · intro e he
    cases he
    exact ⟨rfl, s, hs, c, rfl, hfails⟩

/-- The answer when both passes have run. -/
theorem agrees_of_runs (hg : g.BelongsTo r) {v f : Pass}
    (hv : (Pass.start g r .vertex o : Pass).run g = (.ok (), v))
    (hf : (Pass.start g r .fragment o : Pass).run g = (.ok (), f)) :
    Agrees g r o
      (.ok ⟨v.compiled g, f.compiled g⟩, f.publishWhere (·.state.evaluated) (v.publish g)) := by
  have hstages : ∀ s ∈ Stage.all, (compileStage g r s o).outcome =
      .ok (Program.stage ⟨v.compiled g, f.compiled g⟩ s) := by
    intro s hs
    simp only [Stage.all, List.mem_cons, List.not_mem_nil, or_false] at hs
    rcases hs with rfl | rfl
    · exact outcome_of_run hv
    · exact outcome_of_run hf
  constructor
  · exact iff_of_true ⟨_, rfl⟩ fun s hs => ⟨_, hstages s hs⟩
  · intro P hP
    cases hP
    exact hstages
  · intro P hP id e he
    rw [stage_of_run hv, stage_of_run hf]
    exact expression?_published hg hv hf he
  · exact fun e h => absurd h (by simp)

/-- Whatever the schedule, compiling both stages at the same time agrees with compiling them one by
one. No schedule goes on for ever; one that cannot go on has an answer, which agrees; and the answer
of `compileProgram` is that of a schedule. -/
theorem agrees_after_every_schedule (hg : g.BelongsTo r) (o : Options) :
    (WellFounded fun τ σ => Step g r o σ τ) ∧
    (∀ σ, ReflTransGen (Step g r o) {} σ → (∀ τ, ¬ Step g r o σ τ) →
      ∃ answer, σ.answer? g = some answer ∧ Agrees g r o answer) ∧
    ∃ σ, ReflTransGen (Step g r o) {} σ ∧ σ.answer? g =
      some ((compileProgram g r o).outcome.mapError .compile, (compileProgram g r o).graph) := by
  refine ⟨wellFounded_step, fun σ hσ hstuck => ?_, exists_schedule_compileProgram g r o⟩
  have hsound := sound_of_schedule hσ
  obtain ⟨v?, hv⟩ := ended_of_stuck hstuck (s := .vertex) (by decide)
  obtain ⟨f?, hf⟩ := ended_of_stuck hstuck (s := .fragment) (by decide)
  cases hkept : σ.board.kept with
  | some e =>
      obtain ⟨s, hs, c, q, rfl, hrun⟩ := hsound.board.kept e hkept
      exact ⟨_, by simp only [answer?, hkept, hv, hf], agrees_of_kept hs hrun⟩
  | none =>
      have hvsound := hsound.job .vertex (by decide)
      have hfsound := hsound.job .fragment (by decide)
      rw [hv] at hvsound
      rw [hf] at hfsound
      -- a job that ended without a pass would have left an error
      cases v? with
      | none => exact absurd hvsound (by simp [Job.Sound, hkept])
      | some v =>
          cases f? with
          | none => exact absurd hfsound (by simp [Job.Sound, hkept])
          | some f =>
              exact ⟨_, by simp only [answer?, hkept, hv, hf], agrees_of_runs hg hvsound hfsound⟩

/-- With a loop in the fragment stage alone, every schedule ends with that cycle, whether or not the
vertex job was called off. -/
theorem agrees_looped :
    Graph.looped.BelongsTo .builtin ∧
    ∀ σ, ReflTransGen (Step .looped .builtin {}) {} σ → (∀ τ, ¬ Step .looped .builtin {} σ τ) →
      σ.answer? .looped = some (.error (.compile (.cycle .fragment ⟨2⟩)), .looped) := by
  have hg : Graph.looped.BelongsTo .builtin := Graph.isBuiltin_looped.isOver.belongsTo
  refine ⟨hg, fun σ hσ hstuck => ?_⟩
  obtain ⟨answer, hanswer, hagrees⟩ := (agrees_after_every_schedule hg {}).2.1 σ hσ hstuck
  have hfragment : ((Pass.start .looped .builtin .fragment {} : Pass).run .looped).1 = .error ⟨2⟩ := by
    decide +kernel
  have hfails : (compileStage .looped .builtin .fragment {}).outcome =
      .error (.cycle .fragment ⟨2⟩) := by
    rw [compileStage_of_run_error (Prod.ext hfragment rfl)]
  have hvertex : (compileStage .looped .builtin .vertex {}).outcome.isOk = true := by decide +kernel
  obtain ⟨outcome, g'⟩ := answer
  cases outcome with
  | ok P =>
      obtain ⟨c, hc⟩ := hagrees.succeeds.mp ⟨P, rfl⟩ .fragment (by decide)
      exact absurd (hfails.symm.trans hc) (by simp)
  | error e =>
      obtain ⟨rfl, s, hs, c, rfl, hstage⟩ := hagrees.fails e rfl
      simp only [Stage.all, List.mem_cons, List.not_mem_nil, or_false] at hs
      rcases hs with rfl | rfl
      · rw [hstage] at hvertex
        exact absurd hvertex (by simp [Except.isOk, Except.toBool])
      · cases hstage.symm.trans hfails
        exact hanswer

end Jobs

end NodeShader
