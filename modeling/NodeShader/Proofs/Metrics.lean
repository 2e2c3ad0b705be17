import Mathlib.Data.Prod.Lex
import Mathlib.Data.String.Basic
import NodeShader.Metrics
import NodeShader.Proofs.Node.Builtin
import NodeShader.Proofs.Pass.Tally
import NodeShader.Proofs.Source.Spelling

/-!
# What metrics account for

Passes that share a collector report to it one after the other or, the two of a program, at the same
time, so that what it is told is any interleaving of them. It keeps stages apart by their names, and
no two stages have the same one. So for each stage the metrics depend only on what has been reported
of that stage, in order (`Metrics.Records`, kept by every report); and that is what its passes have
reported, one after the other (`History.told_eq`). Together they give the account of a history of
compilations, whichever of its passes were aborted (`Metrics.Accounts`).
-/

namespace NodeShader

theorem Stage.text_injective : Function.Injective Stage.text := by
  intro s t h
  have hlist : s.text.toList = t.text.toList := congrArg _ h
  unfold text at hlist
  split_ifs at hlist with hs ht ht' hs' ht ht' ht ht'
  · exact hs.trans ht.symm
  · exact absurd hlist (by decide)
  · simp at hlist
  · exact absurd hlist (by decide)
  · exact hs'.trans ht'.symm
  · simp at hlist
  · simp at hlist
  · simp at hlist
  · have hdigits : Number.digitsOf s.number.toNat = Number.digitsOf t.number.toNat := by
      simpa [Number.toList_natText] using hlist
    exact congrArg Stage.mk (UInt8.toNat_inj.mp (Number.digitsOf_injective hdigits))

namespace Metrics

/-! ## Series

The values of a family of metrics are a list, sorted by their labels.
-/

section Series

variable {κ ι α : Type} [LinearOrder ι] {below : κ → κ → Bool} {rank : κ → ι}

/-- Keys are compared by their ranks. -/
structure Ranks (below : κ → κ → Bool) (rank : κ → ι) : Prop where
  injective : Function.Injective rank
  below_iff : ∀ a b, below a b = true ↔ rank a < rank b

theorem Ranks.ne_of_below (h : Ranks below rank) {a b : κ} (hab : below a b = true) : a ≠ b := by
  rintro rfl
  exact lt_irrefl _ ((h.below_iff a a).mp hab)

theorem Ranks.below_of_not_below (h : Ranks below rank) {a b : κ} (hne : a ≠ b)
    (hab : ¬ below a b = true) : below b a = true := by
  rw [h.below_iff, not_lt] at hab
  exact (h.below_iff b a).mpr (lt_of_le_of_ne hab fun heq => hne (h.injective heq.symm))

theorem Ranks.below_trans (h : Ranks below rank) {a b c : κ} (hab : below a b = true)
    (hbc : below b c = true) : below a c = true := by
  rw [h.below_iff] at *
  exact hab.trans hbc

theorem ranks_textBelow : Ranks textBelow id where
  injective := Function.injective_id
  below_iff _ _ := decide_eq_true_iff

theorem ranks_pairBelow : Ranks pairBelow (toLex : String × String → String ×ₗ String) where
  injective := toLex.injective
  below_iff a b := by
    rw [Prod.Lex.toLex_lt_toLex, pairBelow]
    by_cases hfirst : a.1 = b.1 <;> simp [hfirst]

/-- The entries are in the order of their keys. -/
def Sorted (below : κ → κ → Bool) (l : List (κ × α)) : Prop :=
  l.Pairwise fun x y => below x.1 y.1 = true

theorem Sorted.nodup {l : List (κ × α)} (hrank : Ranks below rank) (h : Sorted below l) :
    (l.map Prod.fst).Nodup :=
  List.pairwise_map.mpr (h.imp fun hxy => hrank.ne_of_below hxy)

variable [DecidableEq κ] {zero : α} {key : κ} {f : α → α} {l : List (κ × α)}

omit [LinearOrder ι] in
theorem key_of_mem_alter {x : κ × α} (h : x ∈ alter below zero key f l) :
    x.1 = key ∨ ∃ y ∈ l, x.1 = y.1 := by
  fun_induction alter below zero key f l with
  | case1 => exact .inl (congrArg Prod.fst (List.mem_singleton.mp h))
  | case2 a rest => grind
  | case3 k a rest hne hbelow => grind
  | case4 k a rest hne hbelow ih => grind

theorem Sorted.alter (hrank : Ranks below rank) (h : Sorted below l) :
    Sorted below (alter below zero key f l) := by
  fun_induction Metrics.alter below zero key f l with
  | case1 => exact List.pairwise_singleton ..
  | case2 a rest => exact List.pairwise_cons.mpr (List.pairwise_cons.mp h)
  | case3 k a rest hne hbelow =>
      refine List.pairwise_cons.mpr ⟨fun x hx => ?_, h⟩
      rcases List.mem_cons.mp hx with rfl | hx
      · exact hbelow
      · exact hrank.below_trans hbelow ((List.pairwise_cons.mp h).1 x hx)
  | case4 k a rest hne hbelow ih =>
      obtain ⟨hhead, hrest⟩ := List.pairwise_cons.mp h
      refine List.pairwise_cons.mpr ⟨fun x hx => ?_, ih hrest⟩
      rcases key_of_mem_alter hx with hx | ⟨y, hy, hx⟩
      · rw [hx]
        exact hrank.below_of_not_below (Ne.symm hne) hbelow
      · rw [hx]
        exact hhead y hy

/-- A key has the value that it was given, and any other key the one it had. -/
theorem lookup_alter [BEq κ] [LawfulBEq κ] (hrank : Ranks below rank) (h : Sorted below l) (j : κ) :
    (alter below zero key f l).lookup j =
      if j = key then some (f ((l.lookup key).getD zero)) else l.lookup j := by
  fun_induction alter below zero key f l with
  | case1 => grind
  | case2 a rest => grind
  | case3 k a rest hne hbelow =>
      -- The list is sorted, so that the key is not further on.
      have habsent : ((k, a) :: rest).lookup key = none := by
        rw [List.lookup_eq_none_iff]
        intro x hx
        rw [bne_iff_ne]
        rcases List.mem_cons.mp hx with rfl | hx
        · exact hrank.ne_of_below hbelow
        · exact hrank.ne_of_below (hrank.below_trans hbelow ((List.pairwise_cons.mp h).1 x hx))
      grind
  | case4 k a rest hne hbelow ih =>
      have ih := ih (List.pairwise_cons.mp h).2
      grind

omit [LinearOrder ι] in
/-- A count that goes up adds one to any sum that it is part of. -/
theorem sum_alter_succ (p : κ → Prop) [DecidablePred p] (counts : List (κ × Nat)) :
    (((alter below 0 key (· + 1) counts).filter (p ·.1)).map Prod.snd).sum =
      ((counts.filter (p ·.1)).map Prod.snd).sum + if p key then 1 else 0 := by
  fun_induction alter below 0 key (· + 1) counts with
  | case1 => by_cases hkey : p key <;> simp [hkey]
  | case2 a rest => by_cases hkey : p key <;> simp [hkey]; omega
  | case3 k a rest hne hbelow => by_cases hkey : p key <;> simp [hkey]; omega
  | case4 k a rest hne hbelow ih => by_cases hk : p k <;> simp [hk, ih]; omega

end Series

/-! ## Values of a stage -/

/-- The evaluations of an archetype in a stage. -/
def evaluationsOf (m : Metrics) (s : Stage) (archetype : String) : Nat :=
  (m.evaluations.lookup (archetype, s.text)).getD 0

/-- The evaluations of a stage, summed over archetypes. -/
def evaluationsIn (m : Metrics) (s : Stage) : Nat :=
  ((m.evaluations.filter (·.1.2 = s.text)).map Prod.snd).sum

/-- What is known about a stage, if a pass over it has ended. -/
def stage? (m : Metrics) (s : Stage) : Option StageMetrics := m.stages.lookup s.text

def ofStage (m : Metrics) (s : Stage) : StageMetrics := (m.stage? s).getD {}

/-! ## Reports -/

/-- Counts reports in the order in which they come. -/
def record (m : Metrics) (trace : List (Stage × Event)) : Metrics :=
  trace.foldl (fun m x => observe x.1 m x.2) m

theorem observeAll_eq (m : Metrics) (passes : List (Stage × List Event)) :
    m.observeAll passes = m.record (passes.flatMap fun x => x.2.map (x.1, ·)) := by
  simp only [observeAll, record, List.foldl_flatMap, List.foldl_map]

/-- What is reported of a stage. -/
def told (s : Stage) (trace : List (Stage × Event)) : List Event :=
  (trace.filter (·.1 = s)).map Prod.snd

theorem told_append (s : Stage) (trace trace' : List (Stage × Event)) :
    told s (trace ++ trace') = told s trace ++ told s trace' := by
  simp [told]

theorem filterMap_told_concat {α : Type} (k : Event → Option α) (s t : Stage) (e : Event)
    (trace : List (Stage × Event)) :
    (told s (trace ++ [(t, e)])).filterMap k =
      (told s trace).filterMap k ++ if t = s then (k e).toList else [] := by
  rw [told_append, List.filterMap_append]
  by_cases hst : t = s <;> cases hk : k e <;> simp [told, hst, hk]

end Metrics

/-- What is known about a stage after passes that have ended with these counts. -/
def StageMetrics.after (finished : List Stats) : Option StageMetrics :=
  finished.getLast?.map fun last =>
    { passes := finished.length, statements := finished.map (·.statements)
      hoisted := last.hoisted, declarations := last.declarations }

theorem StageMetrics.getD_after (finished : List Stats) :
    (after finished).getD {} =
      { passes := finished.length, statements := finished.map (·.statements)
        hoisted := (finished.getLast?.map (·.hoisted)).getD 0
        declarations := (finished.getLast?.map (·.declarations)).getD 0 } := by
  cases hlast : finished.getLast? with
  | none => simp [List.getLast?_eq_none_iff.mp hlast, after]
  | some last => simp [after, hlast]

theorem StageMetrics.after_concat (finished : List Stats) (stats : Stats) :
    after (finished ++ [stats]) = some
      { passes := ((after finished).getD {}).passes + 1
        statements := ((after finished).getD {}).statements ++ [stats.statements]
        hoisted := stats.hoisted, declarations := stats.declarations } := by
  rw [getD_after]
  simp [after]

namespace Metrics

/-- The metrics of a stage are those of what has been reported of it. -/
structure Records (m : Metrics) (trace : List (Stage × Event)) : Prop where
  sortedEvaluations : Sorted pairBelow m.evaluations
  sortedStages : Sorted textBelow m.stages
  evaluations : ∀ s archetype, m.evaluationsOf s archetype =
    ((told s trace).filterMap Event.evaluation?).countP (·.2 = archetype)
  summed : ∀ s, m.evaluationsIn s = ((told s trace).filterMap Event.evaluation?).length
  stages : ∀ s, m.stage? s = StageMetrics.after ((told s trace).filterMap Event.stats?)

variable {m : Metrics} {trace : List (Stage × Event)}

theorem evaluationsOf_observe (h : Sorted pairBelow m.evaluations) (s t : Stage) (b : String)
    (e : Event) : (observe t m e).evaluationsOf s b =
      m.evaluationsOf s b + (if t = s then e.evaluation?.toList else []).countP (·.2 = b) := by
  cases e with
  | evaluated id a overload =>
      have hkey : (b, s.text) = (a, t.text) ↔ t = s ∧ a = b := by
        rw [Prod.mk.injEq, Stage.text_injective.eq_iff, and_comm, eq_comm, eq_comm (a := b)]
      simp only [evaluationsOf, observe, countEvaluation, lookup_alter ranks_pairBelow h, hkey]
      by_cases hst : t = s <;> by_cases hab : a = b <;> simp [hst, hab, Event.evaluation?]
  | hoisted | finished => simp [observe, countPass, evaluationsOf, Event.evaluation?]

theorem evaluationsIn_observe (s t : Stage) (e : Event) :
    (observe t m e).evaluationsIn s =
      m.evaluationsIn s + (if t = s then e.evaluation?.toList else []).length := by
  cases e with
  | evaluated id a overload =>
      rw [evaluationsIn, observe, countEvaluation,
        sum_alter_succ fun key : String × String => key.2 = s.text]
      by_cases hst : t = s <;>
        simp [hst, Stage.text_injective.eq_iff, evaluationsIn, Event.evaluation?]
  | hoisted | finished => simp [observe, countPass, evaluationsIn, Event.evaluation?]

theorem stage?_observe (h : Sorted textBelow m.stages) {s : Stage} {finished : List Stats}
    (hstage : m.stage? s = StageMetrics.after finished) (t : Stage) (e : Event) :
    (observe t m e).stage? s =
      StageMetrics.after (finished ++ if t = s then e.stats?.toList else []) := by
  cases e with
  | evaluated | hoisted => simpa [observe, countEvaluation, stage?, Event.stats?] using hstage
  | finished stats =>
      rw [stage?] at hstage
      simp only [stage?, observe, countPass, lookup_alter ranks_textBelow h,
        Stage.text_injective.eq_iff]
      by_cases hst : t = s
      · simp [hst, hstage, Event.stats?, StageMetrics.after_concat]
      · simp [hst, Ne.symm hst, hstage]

theorem records_nil : Records {} [] where
  sortedEvaluations := List.Pairwise.nil
  sortedStages := List.Pairwise.nil
  evaluations _ _ := rfl
  summed _ := rfl
  stages _ := rfl

/-- A report is counted under its stage and changes nothing else. -/
theorem Records.observe (h : m.Records trace) (t : Stage) (e : Event) :
    (observe t m e).Records (trace ++ [(t, e)]) where
  sortedEvaluations := by
    cases e with
    | evaluated => exact h.sortedEvaluations.alter ranks_pairBelow
    | hoisted | finished => exact h.sortedEvaluations
  sortedStages := by
    cases e with
    | finished => exact h.sortedStages.alter ranks_textBelow
    | evaluated | hoisted => exact h.sortedStages
  evaluations s b := by
    rw [filterMap_told_concat, List.countP_append, ← h.evaluations]
    exact evaluationsOf_observe h.sortedEvaluations s t b e
  summed s := by
    rw [filterMap_told_concat, List.length_append, ← h.summed]
    exact evaluationsIn_observe s t e
  stages s := by
    rw [filterMap_told_concat]
    exact stage?_observe h.sortedStages (h.stages s) t e

theorem Records.record (h : m.Records trace) (later : List (Stage × Event)) :
    (m.record later).Records (trace ++ later) := by
  induction later generalizing m trace with
  | nil => simpa [Metrics.record] using h
  | cons x later ih => simpa [Metrics.record] using ih (h.observe x.1 x.2)

theorem records_record (trace : List (Stage × Event)) : (({} : Metrics).record trace).Records trace :=
  records_nil.record trace

end Metrics

/-! ## Histories -/

/-- The two lists are merged into the third. -/
inductive Interleaves {α : Type} : List α → List α → List α → Prop
  | nil : Interleaves [] [] []
  | left {x : α} {l l' w : List α} : Interleaves l l' w → Interleaves (x :: l) l' (x :: w)
  | right {x : α} {l l' w : List α} : Interleaves l l' w → Interleaves l (x :: l') (x :: w)

theorem Interleaves.append {α : Type} (l l' : List α) : Interleaves l l' (l ++ l') := by
  induction l with
  | nil =>
      induction l' with
      | nil => exact .nil
      | cons x l' ih => exact .right ih
  | cons x l ih => exact .left ih

/-- The reports of one stage are merged with those of others only, and so keep their order. -/
theorem Interleaves.told_eq {s : Stage} {l l' w : List (Stage × Event)} (h : Interleaves l l' w)
    (hone : Metrics.told s l = [] ∨ Metrics.told s l' = []) :
    Metrics.told s w = Metrics.told s l ++ Metrics.told s l' := by
  have hcons : ∀ (x : Stage × Event) (trace : List (Stage × Event)),
      Metrics.told s (x :: trace) = Metrics.told s [x] ++ Metrics.told s trace :=
    fun x => Metrics.told_append s [x]
  induction h with
  | nil => rfl
  | @left x l l' w h ih =>
      rw [hcons x l, List.append_eq_nil_iff] at hone
      rw [hcons x w, hcons x l, ih (hone.imp And.right id), List.append_assoc]
  | @right x l l' w h ih =>
      rw [hcons x l', List.append_eq_nil_iff] at hone
      rw [hcons x w, hcons x l', ih (hone.imp id And.right)]
      -- Either the report is of another stage or there are none before it to pass.
      rcases hone with hl | ⟨hx, -⟩
      · rw [hl, List.nil_append, List.nil_append]
      · rw [hx, List.nil_append, List.nil_append]

/-- What a pass reports, with its stage. -/
def PassRun.reports (run : PassRun) : List (Stage × Event) := run.pass.events.map (run.stage, ·)

theorem PassRun.told_reports (run : PassRun) (s : Stage) :
    Metrics.told s run.reports = if run.stage = s then run.pass.events else [] := by
  by_cases hs : run.stage = s <;>
    simp [Metrics.told, reports, List.filter_map, Function.comp_def, hs]

/-- A call that compiles a stage of a graph, or both of its stages. -/
inductive Compilation where
  | stage (g : ShaderGraph) (r : Registry) (s : Stage) (o : Options)
  | program (g : ShaderGraph) (r : Registry) (o : Options)

namespace Compilation

/-- The events of compiling, one stage after the other. -/
def events : Compilation → List (Stage × List Event)
  | stage g r s o => (compileStage g r s o).events
  | program g r o => (compileProgram g r o).events

/-- The passes that a call runs, and what an observer is told of them. The passes of a program are run
at the same time; when one was aborted, the other may not have been run at all. -/
inductive Reports : Compilation → List PassRun → List (Stage × Event) → Prop
  | stage (g : ShaderGraph) (r : Registry) (s : Stage) (o : Options) :
      Reports (.stage g r s o) [.of g r s o] (PassRun.of g r s o).reports
  | both {g : ShaderGraph} {r : Registry} {o : Options} {trace : List (Stage × Event)}
      (h : Interleaves (PassRun.of g r .vertex o).reports (PassRun.of g r .fragment o).reports trace) :
      Reports (.program g r o) [.of g r .vertex o, .of g r .fragment o] trace
  | calledOff {g : ShaderGraph} {r : Registry} {s : Stage} {o : Options} (hs : s ∈ Stage.all)
      (haborted : (PassRun.of g r s o).completed = false) :
      Reports (.program g r o) [.of g r s o] (PassRun.of g r s o).reports

end Compilation

/-- Calls one after the other, with their passes and what an observer of all of them is told. -/
inductive History : List Compilation → List PassRun → List (Stage × Event) → Prop
  | nil : History [] [] []
  | call {c : Compilation} {calls : List Compilation} {runs later : List PassRun}
      {trace rest : List (Stage × Event)} (h : c.Reports runs trace)
      (hlater : History calls later rest) :
      History (c :: calls) (runs ++ later) (trace ++ rest)

namespace Compilation

theorem Reports.told_eq {c : Compilation} {runs : List PassRun} {trace : List (Stage × Event)}
    (h : c.Reports runs trace) (s : Stage) :
    Metrics.told s trace = (runs.filter (·.stage = s)).flatMap (·.pass.events) := by
  cases h with
  | stage g r t o | @calledOff g r t o =>
      rw [PassRun.told_reports]
      by_cases hs : (PassRun.of g r t o).stage = s <;> simp [hs]
  | @both g r o _ h =>
      have hone : Metrics.told s (PassRun.of g r .vertex o).reports = [] ∨
          Metrics.told s (PassRun.of g r .fragment o).reports = [] := by
        simp only [PassRun.told_reports, PassRun.of]
        by_cases hs : Stage.vertex = s
        · exact .inr (if_neg (by rw [← hs]; decide))
        · exact .inl (if_neg hs)
      rw [h.told_eq hone, PassRun.told_reports, PassRun.told_reports]
      by_cases hv : (PassRun.of g r .vertex o).stage = s <;>
        by_cases hf : (PassRun.of g r .fragment o).stage = s <;> simp [hv, hf]

theorem Reports.wellReported {c : Compilation} {runs : List PassRun} {trace : List (Stage × Event)}
    (h : c.Reports runs trace) {run : PassRun} (hrun : run ∈ runs) : run.WellReported := by
  cases h with
  | stage | calledOff =>
      rw [List.mem_singleton.mp hrun]
      exact PassRun.wellReported_of ..
  | both =>
      rcases List.mem_pair.mp hrun with rfl | rfl <;> exact PassRun.wellReported_of ..

/-- An observer that is told of one stage after the other. -/
theorem exists_reports (c : Compilation) :
    ∃ runs, c.Reports runs (c.events.flatMap fun x => x.2.map (x.1, ·)) := by
  cases c with
  | stage g r s o =>
      have hevents : (compileStage g r s o).events = [(s, (PassRun.of g r s o).pass.events)] := by
        simp only [compileStage, PassRun.of]
        split <;> simp_all
      refine ⟨[.of g r s o], ?_⟩
      rw [events, hevents, List.flatMap_singleton]
      exact Reports.stage g r s o
  | program g r o =>
      have hevents : (compileProgram g r o).events =
          [(.vertex, (PassRun.of g r .vertex o).pass.events),
            (.fragment, (PassRun.of g r .fragment o).pass.events)] := by
        simp only [compileProgram, PassRun.of]
        split <;> rfl
      refine ⟨_, Reports.both ?_⟩
      rw [events, hevents, List.flatMap_cons, List.flatMap_singleton]
      exact Interleaves.append _ _

end Compilation

namespace History

variable {calls : List Compilation} {runs : List PassRun} {trace : List (Stage × Event)}

theorem told_eq (h : History calls runs trace) (s : Stage) :
    Metrics.told s trace = (runs.filter (·.stage = s)).flatMap (·.pass.events) := by
  induction h with
  | nil => rfl
  | call h _ ih =>
      rw [Metrics.told_append, List.filter_append, List.flatMap_append, h.told_eq, ih]

theorem wellReported (h : History calls runs trace) : ∀ run ∈ runs, run.WellReported := by
  induction h with
  | nil => exact fun _ hrun => absurd hrun List.not_mem_nil
  | call h _ ih =>
      intro run hrun
      rcases List.mem_append.mp hrun with hrun | hrun
      · exact h.wellReported hrun
      · exact ih run hrun

theorem exists_of (calls : List Compilation) :
    ∃ runs, History calls runs
      ((calls.flatMap Compilation.events).flatMap fun x => x.2.map (x.1, ·)) := by
  induction calls with
  | nil => exact ⟨[], .nil⟩
  | cons c calls ih =>
      obtain ⟨runs, h⟩ := c.exists_reports
      obtain ⟨later, hlater⟩ := ih
      refine ⟨runs ++ later, ?_⟩
      rw [List.flatMap_cons, List.flatMap_append]
      exact .call h hlater

/-- What is reported of a stage, as far as it is of one kind, is what its passes have reported. -/
theorem filterMap_told {α : Type} (h : History calls runs trace) (k : Event → Option α) (s : Stage) :
    (Metrics.told s trace).filterMap k =
      (runs.filter (·.stage = s)).flatMap fun run => run.pass.events.filterMap k := by
  rw [h.told_eq, List.filterMap_flatMap]

end History

/-! ## The account of a history -/

namespace Metrics

/-- The passes over a stage that were completed. -/
def completed (s : Stage) (runs : List PassRun) : List PassRun :=
  runs.filter fun run => run.stage = s ∧ run.completed

/-- The metrics account for the passes that were run, in this order. -/
structure Accounts (m : Metrics) (runs : List PassRun) : Prop where
  /-- Every evaluated node of every pass is counted, also when the pass was aborted. -/
  evaluations : ∀ s archetype, m.evaluationsOf s archetype =
    ((runs.filter (·.stage = s)).map (·.evaluated archetype)).sum
  passes : ∀ s, (m.ofStage s).passes = (completed s runs).length
  count : ∀ s, (m.ofStage s).statements.length = (completed s runs).length
  total : ∀ s, total (m.ofStage s).statements =
    ((completed s runs).map (·.pass.stats.statements)).sum
  buckets : ∀ s bound, bucket (m.ofStage s).statements bound =
    (completed s runs).countP (·.pass.stats.statements ≤ bound)
  /-- A gauge is shown when a pass was completed, and is that of the last one. -/
  hoisted : ∀ s, (m.stage? s).map (·.hoisted) =
    (completed s runs).getLast?.map (·.pass.stats.hoisted)
  declarations : ∀ s, (m.stage? s).map (·.declarations) =
    (completed s runs).getLast?.map (·.pass.stats.declarations)
  /-- Of an aborted pass, the nodes that it had counted. -/
  nodes : ∀ s, m.evaluationsIn s = ((runs.filter (·.stage = s)).map (·.pass.stats.nodes)).sum
  /-- No value is shown twice. -/
  once : (m.evaluations.map Prod.fst).Nodup ∧ (m.stages.map Prod.fst).Nodup

end Metrics

namespace History

variable {calls : List Compilation} {runs : List PassRun} {trace : List (Stage × Event)}

theorem stats_told (h : History calls runs trace) (s : Stage) :
    (Metrics.told s trace).filterMap Event.stats? =
      (Metrics.completed s runs).map (·.pass.stats) := by
  rw [h.filterMap_told]
  have hwell := h.wellReported
  clear h
  induction runs with
  | nil => rfl
  | cons run runs ih =>
      obtain ⟨hrun, hruns⟩ := List.forall_mem_cons.mp hwell
      have ih := ih hruns
      rw [Metrics.completed] at ih ⊢
      by_cases hs : run.stage = s <;> by_cases hdone : run.completed = true <;>
        simp [hs, hdone, hrun.finished, ih]

theorem stage?_record (h : History calls runs trace) (s : Stage) :
    (({} : Metrics).record trace).stage? s =
      StageMetrics.after ((Metrics.completed s runs).map (·.pass.stats)) := by
  rw [← h.stats_told]
  exact (Metrics.records_record trace).stages s

theorem statements_record (h : History calls runs trace) (s : Stage) :
    ((({} : Metrics).record trace).ofStage s).statements =
      (Metrics.completed s runs).map (·.pass.stats.statements) := by
  rw [Metrics.ofStage, h.stage?_record, StageMetrics.getD_after]
  exact List.map_map

theorem accounts (h : History calls runs trace) : (({} : Metrics).record trace).Accounts runs where
  evaluations s archetype := by
    rw [(Metrics.records_record trace).evaluations, h.filterMap_told, List.countP_flatMap]
    refine congrArg List.sum (List.map_congr_left fun run hrun => ?_)
    exact (h.wellReported run (List.mem_of_mem_filter hrun)).evaluated archetype
  passes s := by
    rw [Metrics.ofStage, h.stage?_record, StageMetrics.getD_after]
    exact List.length_map _
  count s := by rw [h.statements_record, List.length_map]
  total s := by rw [h.statements_record, Metrics.total, List.sum_eq_foldl_nat]
  buckets s bound := by
    rw [h.statements_record, Metrics.bucket, List.countP_map]
    rfl
  hoisted s := by
    rw [h.stage?_record, StageMetrics.after, List.getLast?_map, Option.map_map, Option.map_map]
    rfl
  declarations s := by
    rw [h.stage?_record, StageMetrics.after, List.getLast?_map, Option.map_map, Option.map_map]
    rfl
  nodes s := by
    rw [(Metrics.records_record trace).summed, h.filterMap_told, List.length_flatMap]
    refine congrArg List.sum (List.map_congr_left fun run hrun => ?_)
    exact (h.wellReported run (List.mem_of_mem_filter hrun)).nodes
  once := ⟨(Metrics.records_record trace).sortedEvaluations.nodup Metrics.ranks_pairBelow,
    (Metrics.records_record trace).sortedStages.nodup Metrics.ranks_textBelow⟩

end History

namespace Metrics

/-- Whatever is compiled, one call after the other, and however the passes of a program are
interleaved, the metrics account for every pass; and to observe one stage after the other is one of
the ways. -/
theorem accounts_for_every_pass (calls : List Compilation) :
    (∀ runs trace, History calls runs trace → (({} : Metrics).record trace).Accounts runs) ∧
    ∃ runs trace, History calls runs trace ∧
      ({} : Metrics).observeAll (calls.flatMap Compilation.events) = ({} : Metrics).record trace := by
  refine ⟨fun runs trace h => h.accounts, ?_⟩
  obtain ⟨runs, h⟩ := History.exists_of calls
  exact ⟨runs, _, h, observeAll_eq ..⟩

/-- A sum of a parameter and of what depends on the sum. The parameter is evaluated before the cycle
is found. -/
def stalled : ShaderGraph :=
  Graph.sketch ["parameter", "add", "add", "out_fragment"]
    [(.output 1 0, .input 2 0), (.output 3 0, .input 2 1), (.output 2 0, .input 3 0),
      (.output 2 0, .input 4 0)]

theorem accounts_for_stalled :
    ∃ runs trace,
      History [.stage stalled .builtin .fragment {}, .program .detached .builtin {}] runs trace ∧
      runs.map (·.completed) = [false, true, true] ∧
      (({} : Metrics).record trace).Accounts runs ∧
      (({} : Metrics).record trace).evaluationsOf .fragment "parameter" = 2 := by
  have h := History.call (.stage stalled .builtin .fragment {})
    (.call (.both (g := .detached) (r := .builtin) (o := {}) (.append _ _)) .nil)
  exact ⟨_, _, h, by decide +kernel, (accounts_for_every_pass _).1 _ _ h, by decide +kernel⟩

end Metrics

end NodeShader
